import BenchRatio.Proofs.Category.InTurn
import BenchRatio.Proofs.Category.Phases
import Mathlib.Data.List.Forall2
import Mathlib.Data.List.Pairwise

/-!
# Categories that keep out of each other's way

Categories are apart if no output of one is at, above or below a path of another. Each then sees
the same store before and after the others, up to directories that they have made.

* `run_alike`: a category has the same result on a store that shows its paths alike, except that a
  name may be found too long where the directory for it was missing.
* `Merged`: what categories have changed together is what each one changes alone.
* `runInTurn_perm`: **the order does not matter**, neither for the results nor for the files.
-/

namespace BenchRatio.Category

open Store

/-! ## Two stores that look alike -/

/-- The same result, or a source whose name is too long and was not looked up before, because the
directory for it was missing. -/
def SameResult {α : Type} (alone later : Except Problem α) : Prop :=
  later = alone ∨ ∃ p : Path, (∃ name ∈ p.names, nameLimit < name.utf8ByteSize) ∧
    alone = .error (.unreadable p .notFound) ∧ later = .error (.unreadable p .nameTooLong)

variable {s t : Store} {d : Dialect}

theorem SameResult.map {α β : Type} {alone later : Except Problem α} (h : SameResult alone later)
    (f : α → β) : SameResult (alone.map f) (later.map f) := by
  rcases h with rfl | ⟨p, hlong, rfl, rfl⟩
  · exact .inl rfl
  · exact .inr ⟨p, hlong, rfl, rfl⟩

theorem SameResult.bind {α β : Type} {alone later : Except Problem α} (h : SameResult alone later)
    {f g : α → Except Problem β} (hmore : ∀ a, SameResult (f a) (g a)) :
    SameResult (alone.bind f) (later.bind g) := by
  rcases h with rfl | ⟨p, hlong, rfl, rfl⟩
  · cases later with
    | error problem => exact .inl rfl
    | ok a => exact hmore a
  · exact .inr ⟨p, hlong, rfl, rfl⟩

theorem load_alike (hs : s.IsTree) {p : Path} (hdots : ".." ∉ p.names)
    (hshows : Shows (s.place p) s t) :
    SameResult (Measurements.load s d p).result (Measurements.load t d p).result := by
  unfold Measurements.load
  rcases read_of_shows hs hdots hshows with heq | ⟨hbefore, hafter, hlong⟩
  · rw [heq]
    exact .inl rfl
  · rw [hbefore, hafter]
    exact .inr ⟨p, hlong, rfl, rfl⟩

theorem loadAll_alike (hs : s.IsTree) {ps : List Path} (hdots : ∀ p ∈ ps, ".." ∉ p.names)
    (hshows : ∀ p ∈ ps, Shows (s.place p) s t) :
    SameResult (Measurements.loadAll s d ps).result (Measurements.loadAll t d ps).result := by
  induction ps with
  | nil => exact .inl rfl
  | cons p ps ih =>
    obtain ⟨hp, hps⟩ := List.forall_mem_cons.mp hdots
    obtain ⟨hshow, hmore⟩ := List.forall_mem_cons.mp hshows
    rw [Measurements.result_loadAll_cons, Measurements.result_loadAll_cons]
    exact (load_alike hs hp hshow).bind fun m => (ih hps hmore).map _

/-- The paths of a category, its output first. -/
def paths (c : Category) : List Path := c.output :: c.sources.map (·.path)

theorem loaded_alike (hs : s.IsTree) {c : Category} (hdots : ∀ p ∈ c.paths, ".." ∉ p.names)
    (hshows : ∀ p ∈ c.paths, Shows (s.place p) s t) :
    SameResult (loaded s d c) (loaded t d c) := by
  have hbase : c.baseline.path ∈ c.paths := by simp [paths, sources]
  have htreatments : ∀ p ∈ c.treatments.map (·.path), p ∈ c.paths :=
    fun p hp => List.mem_cons_of_mem _ (List.mem_cons_of_mem _ hp)
  have hall := loadAll_alike (d := d) hs (fun p hp => hdots p (htreatments p hp))
    fun p hp => hshows p (htreatments p hp)
  rw [loaded_eq_bind, loaded_eq_bind]
  exact (load_alike hs (hdots _ hbase) (hshows _ hbase)).bind fun baseline => hall.map _

/-- **A category that finds its paths alike** has the same result, except for a name that is too
long, and makes the same changes. -/
theorem run_alike (hs : s.IsTree) (ht : t.IsTree) {c : Category}
    (hdots : ∀ p ∈ c.paths, ".." ∉ p.names) (hshows : ∀ p ∈ c.paths, Shows (s.place p) s t) :
    SameResult (c.run s d).2.result (c.run t d).2.result ∧
      Alike (s.place c.output) s t (c.run s d).1 (c.run t d).1 := by
  have houtput := hdots c.output List.mem_cons_self
  have hshow := hshows c.output List.mem_cons_self
  rcases @loaded_alike s t d hs c hdots hshows with heq | ⟨q, hlong, hbefore, hafter⟩
  · cases hloaded : loaded s d c with
    | error problem =>
      obtain ⟨hs', hresult⟩ := run_of_error hloaded
      obtain ⟨ht', hresult'⟩ := run_of_error (heq.trans hloaded)
      rw [hs', ht', hresult, hresult']
      exact ⟨.inl rfl, .refl hshow⟩
    | ok measured =>
      obtain ⟨hs', hresult⟩ := run_of_loaded hloaded
      obtain ⟨ht', hresult'⟩ := run_of_loaded (heq.trans hloaded)
      obtain ⟨hsame, halike⟩ := Table.writeFile_alike hs ht houtput hshow c.labels
        (ratioTable measured.1 measured.2).result
      rw [hs', ht', hresult, hresult', hsame]
      exact ⟨.inl rfl, halike⟩
  · obtain ⟨hs', hresult⟩ := run_of_error hbefore
    obtain ⟨ht', hresult'⟩ := run_of_error hafter
    rw [hs', ht', hresult, hresult']
    exact ⟨.inr ⟨q, hlong, rfl, rfl⟩, .refl hshow⟩

/-! ## What is changed together -/

/-- Neither place is at or above the other. -/
def Unrelated (x y : Place) : Prop := ¬ x <+: y ∧ ¬ y <+: x

/-- No output of one is at, above or below a path of the other. -/
def Apart (s : Store) (a b : Category) : Prop :=
  (∀ p ∈ b.paths, Unrelated (s.place a.output) (s.place p)) ∧
    ∀ p ∈ a.paths, Unrelated (s.place b.output) (s.place p)

instance (x y : Place) : Decidable (Unrelated x y) := inferInstanceAs (Decidable (_ ∧ _))

instance (s : Store) (a b : Category) : Decidable (Apart s a b) :=
  inferInstanceAs (Decidable (_ ∧ _))

theorem Apart.symm {a b : Category} (h : Apart s a b) : Apart s b a := ⟨h.2, h.1⟩

instance : Std.Symm (Apart s) := ⟨fun _ _ => Apart.symm⟩

/-- What categories have changed in a store together is what each one changes alone. -/
structure Merged (s : Store) (d : Dialect) (done : List Category) (t : Store) : Prop where
  workingDir : t.workingDir = s.workingDir
  node : ∀ q, (t.node? q = s.node? q ∧ ∀ c ∈ done, (c.run s d).1.node? q = s.node? q) ∨
    ∃ c ∈ done, (c.run s d).1.node? q ≠ s.node? q ∧ t.node? q = (c.run s d).1.node? q

/-- What a category changes alone is on the way to its output, and above the output only directories
are made. -/
theorem changes_of_run (hs : s.IsTree) {c : Category} (hdots : ∀ p ∈ c.paths, ".." ∉ p.names)
    {q : Place} (h : (c.run s d).1.node? q ≠ s.node? q) :
    q <+: s.place c.output ∧ (q ≠ s.place c.output →
      s.node? q = none ∧ (c.run s d).1.node? q = some .directory) :=
  ((@run_alike s s d hs hs c hdots fun _ _ => ⟨rfl, fun _ _ => .inl rfl⟩).2.made q h).2

/-- A path sees the same after categories that keep out of its way. -/
theorem Merged.shows (hs : s.IsTree) {done : List Category} (h : Merged s d done t)
    (hdots : ∀ c ∈ done, ∀ p ∈ c.paths, ".." ∉ p.names) {x : Place}
    (hapart : ∀ c ∈ done, Unrelated (s.place c.output) x) : Shows x s t := by
  refine ⟨h.workingDir, fun q hq => ?_⟩
  rcases h.node q with ⟨heq, -⟩ | ⟨c, hc, hchanged, heq⟩
  · exact .inl heq
  · obtain ⟨hon, habove⟩ := changes_of_run hs (hdots c hc) hchanged
    obtain ⟨hnone, hdirectory⟩ := habove fun hat => (hapart c hc).1 (hat ▸ hq)
    exact .inr ⟨fun hat => (hapart c hc).2 (hat ▸ hon), hnone, heq.trans hdirectory⟩

/-- Running one more category adds what it changes alone. -/
theorem Merged.run (hs : s.IsTree) (ht : t.IsTree) {done : List Category} (h : Merged s d done t)
    {c : Category} (hdots : ∀ a ∈ done ++ [c], ∀ p ∈ a.paths, ".." ∉ p.names)
    (hapart : ∀ a ∈ done, Apart s a c) :
    SameResult (c.run s d).2.result (c.run t d).2.result ∧
      Merged s d (done ++ [c]) (c.run t d).1 := by
  obtain ⟨hdone, hc⟩ := List.forall_mem_append.mp hdots
  obtain ⟨hresult, halike⟩ := @run_alike s t d hs ht c (hc c List.mem_cons_self)
    fun p hp => h.shows hs hdone fun a ha => (hapart a ha).1 p hp
  refine ⟨hresult, halike.shows.workingDir.trans (writes_run s d c).workingDir, fun q => ?_⟩
  by_cases hchanged : (c.run s d).1.node? q = s.node? q
  · rw [halike.kept q hchanged]
    rcases h.node q with ⟨heq, hnone⟩ | ⟨a, ha, hother, heq⟩
    · exact .inl ⟨heq, List.forall_mem_append.mpr ⟨hnone, by simpa using hchanged⟩⟩
    · exact .inr ⟨a, List.mem_append_left _ ha, hother, heq⟩
  · exact .inr ⟨c, by simp, hchanged, (halike.made q hchanged).1⟩

/-- Running more categories in turn gives each the result that it has alone. -/
theorem Merged.runInTurn (hs : s.IsTree) (ht : t.IsTree) {done cs : List Category}
    (h : Merged s d done t) (hdots : ∀ a ∈ done ++ cs, ∀ p ∈ a.paths, ".." ∉ p.names)
    (hapart : (done ++ cs).Pairwise (Apart s)) :
    List.Forall₂ (fun c result => SameResult (c.run s d).2.result result) cs
        (runInTurn t d cs).2 ∧
      Merged s d (done ++ cs) (runInTurn t d cs).1 := by
  induction cs generalizing t done with
  | nil =>
    rw [List.append_nil]
    exact ⟨.nil, h⟩
  | cons c cs ih =>
    rw [← List.singleton_append, ← List.append_assoc] at hdots hapart ⊢
    obtain ⟨hfirst, -, -⟩ := List.pairwise_append.mp hapart
    obtain ⟨-, -, hlast⟩ := List.pairwise_append.mp hfirst
    obtain ⟨hresult, hmerged⟩ := h.run hs ht (List.forall_mem_append.mp hdots).1
      fun a ha => hlast a ha c List.mem_cons_self
    obtain ⟨hresults, hall⟩ := ih (isTree_run ht d c) hmerged hdots hapart
    exact ⟨.cons hresult hresults, hall⟩

/-- Two categories that change the same place make the same directory there. -/
theorem Merged.node_eq (hs : s.IsTree) {cs cs' : List Category} {t' : Store}
    (h : Merged s d cs t) (h' : Merged s d cs' t') (hperm : cs'.Perm cs)
    (hdots : ∀ c ∈ cs, ∀ p ∈ c.paths, ".." ∉ p.names) (hapart : cs.Pairwise (Apart s))
    (q : Place) : t'.node? q = t.node? q := by
  rcases h.node q, h'.node q with ⟨⟨heq, hnone⟩ | ⟨a, ha, hchanged, heq⟩,
    ⟨heq', hnone'⟩ | ⟨b, hb, hchanged', heq'⟩⟩
  · rw [heq, heq']
  · exact absurd (hnone b (hperm.mem_iff.mp hb)) hchanged'
  · exact absurd (hnone' a (hperm.mem_iff.mpr ha)) hchanged
  · rw [heq, heq']
    have hb := hperm.mem_iff.mp hb
    by_cases hab : a = b
    · rw [hab]
    have hab : Apart s a b := hapart.forall ha hb hab
    obtain ⟨hona, habovea⟩ := changes_of_run hs (hdots a ha) hchanged
    obtain ⟨honb, haboveb⟩ := changes_of_run hs (hdots b hb) hchanged'
    have hunrelated := hab.1 b.output List.mem_cons_self
    rw [(habovea fun hat => hunrelated.1 (hat ▸ honb)).2,
      (haboveb fun hat => hunrelated.2 (hat ▸ hona)).2]

/-! ## A name that is too long -/

/-- A name of 256 bytes, one more than a directory takes. -/
def overlongName : String := String.ofList (List.replicate 256 'n')

theorem utf8ByteSize_overlongName : overlongName.utf8ByteSize = 256 := by decide +kernel

theorem eq_of_mem_overlongName {c : Char} (h : c ∈ overlongName.toList) : c = 'n' :=
  List.eq_of_mem_replicate (String.toList_ofList ▸ h)

theorem overlongName_ne {short : String} (h : short.utf8ByteSize < 256) : overlongName ≠ short := by
  rintro rfl
  rw [utf8ByteSize_overlongName] at h
  omega

/-- A source with such a name in a directory. -/
def overlongSource : Path := ⟨"x" ++ "/" ++ overlongName⟩

theorem pieces_overlongSource : overlongSource.pieces = ["x", overlongName] := by
  have hslash : '/' ∉ overlongName.toList := fun h => absurd (eq_of_mem_overlongName h) (by decide)
  rw [overlongSource, Path.pieces_slash, Path.pieces_of_no_slash hslash]
  rfl

theorem names_overlongSource : overlongSource.names = ["x", overlongName] := by
  have hname : ¬ Path.Nameless overlongName :=
    not_or.mpr ⟨overlongName_ne (by decide), overlongName_ne (by decide)⟩
  have hx : ¬ Path.Nameless "x" := by decide
  simp [Path.names, pieces_overlongSource, hname, hx]

theorem isAbsolute_overlongSource : overlongSource.isAbsolute = false := by
  rw [Bool.eq_false_iff, ne_eq, Path.isAbsolute_iff, pieces_overlongSource]
  rintro ⟨more, -, hcons⟩
  exact absurd (List.cons.inj hcons).1 (by decide)

/-- Whether the source is missing or too long hangs on its directory. -/
theorem read_overlongSource {s : Store} (hdir : s.workingDir = []) :
    (s.node? ["x"] = none → s.read overlongSource = .error .notFound) ∧
      (s.node? ["x"] = some .directory → s.read overlongSource = .error .nameTooLong) := by
  have hfault : pathFault? overlongSource = none := by
    have hnul : '\x00' ∉ overlongSource.text.toList := by
      have hname : '\x00' ∉ overlongName.toList :=
        fun h => absurd (eq_of_mem_overlongName h) (by decide)
      rw [overlongSource, String.toList_append, List.mem_append, not_or]
      exact ⟨by decide, hname⟩
    have hsize : overlongSource.text.utf8ByteSize = 258 := by
      rw [overlongSource, String.utf8ByteSize_append, utf8ByteSize_overlongName]
      rfl
    have hne : overlongSource.text ≠ "" := by
      intro h
      rw [h] at hsize
      cases hsize
    rw [pathFault?, if_neg (by simpa using hnul), if_neg hne, if_neg (by rw [hsize]; decide)]
  have horigin : s.origin overlongSource = ([], ["x", overlongName]) := by
    simp [origin, isAbsolute_overlongSource, pieces_overlongSource, hdir]
  have hx : ¬ Path.Nameless "x" := by decide
  rw [Store.read, locate, hfault, horigin]
  simp only []
  rw [follow_cons_of_directory rfl, if_neg hx, if_neg (by decide), if_neg (by decide)]
  refine ⟨fun hnone => ?_, fun hdirectory => ?_⟩
  · rw [List.nil_append, follow_of_none hnone]
  · have hname : ¬ Path.Nameless overlongName :=
      not_or.mpr ⟨overlongName_ne (by decide), overlongName_ne (by decide)⟩
    rw [List.nil_append, follow_cons_of_directory hdirectory, if_neg hname,
      if_neg (overlongName_ne (by decide)), if_pos (by rw [utf8ByteSize_overlongName]; decide)]

/-- A store with an empty results file. -/
def emptyBaseline : Store := ⟨SortedMap.ofList [(["b.csv"], .file [])], []⟩

/-- A category that makes the directory. -/
def makesDirectory : Category := ⟨"a", ⟨"base", ⟨"b.csv"⟩⟩, [], ⟨"x/a.csv"⟩⟩

/-- A category with the source. -/
def readsOverlong : Category := ⟨"b", ⟨"base", overlongSource⟩, [], ⟨"o.csv"⟩⟩

theorem isTree_emptyBaseline : emptyBaseline.IsTree := isTree_of_entries rfl (by decide +kernel)

theorem pieces_overlong : ∀ c ∈ [makesDirectory, readsOverlong], ∀ p ∈ c.paths,
    ".." ∉ p.pieces ∧ "." ∉ p.pieces := by
  have hlong : ".." ∉ overlongSource.pieces ∧ "." ∉ overlongSource.pieces := by
    have hdots : overlongName ≠ ".." := overlongName_ne (by decide)
    have hdot : overlongName ≠ "." := overlongName_ne (by decide)
    rw [pieces_overlongSource]
    simp [Ne.symm hdots, Ne.symm hdot]
  refine List.forall_mem_cons.mpr ⟨by decide +kernel, List.forall_mem_singleton.mpr ?_⟩
  exact List.forall_mem_cons.mpr ⟨by decide +kernel, List.forall_mem_singleton.mpr hlong⟩

theorem apart_overlong : [makesDirectory, readsOverlong].Pairwise (Apart emptyBaseline) := by
  have hname : overlongName ≠ "a.csv" := overlongName_ne (by decide)
  have hlong : emptyBaseline.place overlongSource = ["x", overlongName] := by
    rw [place, start, isAbsolute_overlongSource, names_overlongSource]
    rfl
  have houtput : emptyBaseline.place makesDirectory.output = ["x", "a.csv"] := rfl
  have hunrelated : Unrelated (emptyBaseline.place makesDirectory.output)
      (emptyBaseline.place overlongSource) := by
    rw [hlong, houtput]
    simp [Unrelated, hname, Ne.symm hname]
  refine List.pairwise_pair.mpr ⟨?_, by decide +kernel⟩
  exact List.forall_mem_cons.mpr ⟨by decide +kernel, List.forall_mem_singleton.mpr hunrelated⟩

/-! ## Any order -/

/-- **Categories that are apart do not depend on each other.** Run in turn, in any order, each has
the result that it has alone, except that a name that is too long may be looked up where the
directory for it was missing; and any order leaves the same files and directories. -/
theorem runInTurn_perm (hs : s.IsTree) {cs cs' : List Category}
    (hdots : ∀ c ∈ cs, ∀ p ∈ c.paths, ".." ∉ p.names) (hapart : cs.Pairwise (Apart s))
    (hperm : cs'.Perm cs) :
    List.Forall₂ (fun c result => SameResult (c.run s d).2.result result) cs'
        (Category.runInTurn s d cs').2 ∧
      ∀ q, (Category.runInTurn s d cs').1.node? q = (Category.runInTurn s d cs).1.node? q := by
  have hfirst : Merged s d [] s := ⟨rfl, fun q => .inl ⟨rfl, by simp⟩⟩
  have hdots' : ∀ c ∈ cs', ∀ p ∈ c.paths, ".." ∉ p.names :=
    fun c hc => hdots c (hperm.mem_iff.mp hc)
  have hapart' : cs'.Pairwise (Apart s) := (hperm.pairwise_iff Apart.symm).mpr hapart
  obtain ⟨-, hmerged⟩ := hfirst.runInTurn hs hs hdots hapart
  obtain ⟨hresults, hmerged'⟩ := hfirst.runInTurn hs hs hdots' hapart'
  exact ⟨hresults, hmerged.node_eq hs hmerged' hperm hdots hapart⟩

/-- A source that is too long, and a category that makes the directory for it. -/
theorem runInTurn_perm_overlong :
    emptyBaseline.IsTree ∧
      (∀ c ∈ [makesDirectory, readsOverlong], ∀ p ∈ c.paths, ".." ∉ p.names) ∧
      [makesDirectory, readsOverlong].Pairwise (Apart emptyBaseline) ∧
      [readsOverlong, makesDirectory].Perm [makesDirectory, readsOverlong] ∧
      List.Forall₂ (fun c result => SameResult (c.run emptyBaseline ⟨44, 124⟩).2.result result)
        [readsOverlong, makesDirectory]
        (runInTurn emptyBaseline ⟨44, 124⟩ [readsOverlong, makesDirectory]).2 ∧
      ∀ q, (runInTurn emptyBaseline ⟨44, 124⟩ [readsOverlong, makesDirectory]).1.node? q =
        (runInTurn emptyBaseline ⟨44, 124⟩ [makesDirectory, readsOverlong]).1.node? q := by
  have hdots : ∀ c ∈ [makesDirectory, readsOverlong], ∀ p ∈ c.paths, ".." ∉ p.names :=
    fun c hc p hp hmem => (pieces_overlong c hc p hp).1 (List.mem_filter.mp hmem).1
  have hperm := List.Perm.swap makesDirectory readsOverlong []
  exact ⟨isTree_emptyBaseline, hdots, apart_overlong, hperm,
    runInTurn_perm isTree_emptyBaseline hdots apart_overlong hperm⟩

/-- The source is missing when its category runs alone, and too long after the other one has made
the directory. -/
theorem result_differs_alone :
    emptyBaseline.IsTree ∧
      (∀ c ∈ [makesDirectory, readsOverlong], ∀ p ∈ c.paths, ".." ∉ p.pieces ∧ "." ∉ p.pieces) ∧
      [makesDirectory, readsOverlong].Pairwise (Apart emptyBaseline) ∧
      (readsOverlong.run emptyBaseline ⟨44, 124⟩).2.result =
        .error (.unreadable overlongSource .notFound) ∧
      (runInTurn emptyBaseline ⟨44, 124⟩ [makesDirectory, readsOverlong]).2[1]? =
        some (.error (.unreadable overlongSource .nameTooLong)) := by
  have hmissing : emptyBaseline.node? ["x"] = none := by decide +kernel
  have hmade : (makesDirectory.run emptyBaseline ⟨44, 124⟩).1.node? ["x"] = some .directory := by
    decide +kernel
  have hdir := (writes_run emptyBaseline ⟨44, 124⟩ makesDirectory).workingDir
  have hsecond : (runInTurn emptyBaseline ⟨44, 124⟩ [makesDirectory, readsOverlong]).2[1]? =
      some (readsOverlong.run (makesDirectory.run emptyBaseline ⟨44, 124⟩).1 ⟨44, 124⟩).2.result :=
    rfl
  refine ⟨isTree_emptyBaseline, pieces_overlong, apart_overlong,
    result_of_unread ((read_overlongSource rfl).1 hmissing), ?_⟩
  rw [hsecond]
  exact congrArg some (result_of_unread ((read_overlongSource hdir).2 hmade))

end BenchRatio.Category
