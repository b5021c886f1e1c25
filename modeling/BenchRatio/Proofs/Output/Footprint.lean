import BenchRatio.Proofs.Output.File
import BenchRatio.Proofs.Store.Footprint

/-!
# What writing a table to a file sees

* `isTree_writeFile`: writing leaves a tree.
* `writeFile_alike`: **stores that look alike on the way to a file** give the same result and change
  alike.
-/

namespace BenchRatio.Table

open Store

/-- The directory above a path is made from the top down, unless there is something wrong with the
path as a text. -/
theorem makeParent_cases (p : Path) :
    (∃ fault, ∀ s : Store, makeParent s p = (s, some fault)) ∨
      ∀ s : Store, s.IsTree → makeParent s p = ((s.build false (s.start p) p.names.dropLast).1,
        fault? (s.build false (s.start p) p.names.dropLast).2) := by
  unfold makeParent
  cases ha : p.parent? with
  | none =>
    refine .inr fun s _ => ?_
    rw [Path.names_eq_nil_of_parent ha]
    rfl
  | some a =>
    by_cases hfault : a.text = "" ∨ pathFault? a = none
    · refine .inr fun s htree => ?_
      have hstart : s.start a = s.start p := by rw [start, start, Path.isAbsolute_parent ha]
      simp only []
      rw [makeDirs_eq_build htree (Path.trimmed_parent ha) hfault, hstart, Path.names_parent ha]
    · rw [not_or] at hfault
      obtain ⟨fault, hsome⟩ := Option.ne_none_iff_exists'.mp hfault.2
      exact .inl ⟨fault, makeDirs_of_pathFault hsome hfault.1⟩

/-! ## Trees -/

theorem isTree_makeParent {s : Store} (htree : s.IsTree) (p : Path) :
    (makeParent s p).1.IsTree := by
  rcases makeParent_cases p with ⟨fault, hfault⟩ | hbuild
  · rw [hfault]
    exact htree
  · rw [hbuild s htree]
    exact (build_spec htree (htree.start p) false _).1

/-- A file is opened in a directory. -/
theorem isTree_create {s s' : Store} (htree : s.IsTree) {p : Path} {place : Place}
    (h : s.create p = .ok (s', place)) (received : Bytes) : (settle s' place received).IsTree := by
  unfold create at h
  split at h
  · cases h
  · cases h
  · next target htarget =>
    obtain ⟨-, -, _, _, -, hfollow, -⟩ := target_eq_some htarget
    have habove : s.node? target.above = some .directory := (follow_append hfollow).1
    have hput : s.node? (target.above ++ [target.name]) ≠ some .directory →
        (settle (s.put (target.above ++ [target.name]) (.file []))
          (target.above ++ [target.name]) received).IsTree := by
      intro hold
      have hnode := node?_put_self s (p := target.above ++ [target.name]) (by simp) (.file [])
      simp only [settle, hnode, put_put]
      exact htree.put habove hold _
    simp only [] at h
    split_ifs at h
    split at h
    · cases h
    · next refusal hnode =>
      cases h
      rw [settle, hnode]
      exact htree
    · next old hnode =>
      cases h
      exact hput (by simp [hnode])
    · next hnode =>
      cases h
      exact hput (by simp [hnode])

/-- Writing leaves a tree. -/
theorem isTree_writeFile {s : Store} (htree : s.IsTree) (p : Path) (labels : List String)
    (rows : List RatioRow) : (writeFile s p labels rows).1.IsTree := by
  have hparent := isTree_makeParent htree p
  unfold writeFile
  generalize makeParent s p = outcome at *
  obtain ⟨t, fault⟩ := outcome
  cases fault with
  | some cause => exact hparent
  | none =>
    simp only []
    cases hcreate : t.create p with
    | error cause => exact hparent
    | ok created => exact isTree_create hparent hcreate _

/-! ## Stores that look alike -/

theorem makeParent_alike {s t : Store} (hs : s.IsTree) (ht : t.IsTree) {p : Path}
    (hdots : ".." ∉ p.names) (hshows : Shows (s.place p) s t) :
    (makeParent t p).2 = (makeParent s p).2 ∧
      Alike (s.place p) s t (makeParent s p).1 (makeParent t p).1 ∧
      ((makeParent s p).2 = none → ∀ q, q <+: s.place p →
        (makeParent t p).1.node? q = (makeParent s p).1.node? q) := by
  rcases makeParent_cases p with ⟨fault, hfault⟩ | hbuild
  · rw [hfault, hfault]
    exact ⟨rfl, .refl hshows, fun hnone => by cases hnone⟩
  have hnames : ∀ name ∈ p.names.dropLast, ¬ Path.Nameless name := fun name hname =>
    of_decide_eq_true (List.mem_filter.mp (List.dropLast_subset _ hname)).2
  have hkept : (p.names.dropLast).filter (¬ Path.Nameless ·) = p.names.dropLast :=
    List.filter_eq_self.mpr fun name hname => decide_eq_true (hnames name hname)
  have hup : ".." ∉ p.names.dropLast := fun hmem => hdots (List.dropLast_subset _ hmem)
  have hstart := hs.start p
  obtain ⟨hresult, halike⟩ : (t.build false (s.start p) p.names.dropLast).2 =
        (s.build false (s.start p) p.names.dropLast).2 ∧
      Alike (s.place p) s t (s.build false (s.start p) p.names.dropLast).1
        (t.build false (s.start p) p.names.dropLast).1 := by
    rcases p.names.eq_nil_or_concat with hnil | ⟨above, name, hconcat⟩
    · rw [hnil]
      exact ⟨rfl, .refl hshows⟩
    · refine build_alike hs (.refl hshows) ?_ ?_ hup hstart (by simp) (by simp)
      · rw [hkept, place]
        exact (List.prefix_append_right_inj _).mpr (List.dropLast_prefix _)
      · rw [hkept, place, hconcat]
        simp
  rw [hbuild s hs, hbuild t ht, start_congr hshows.workingDir, hresult]
  refine ⟨rfl, halike, fun hnone q hq => ?_⟩
  cases hbuilt : (s.build false (s.start p) p.names.dropLast).2 with
  | error fault =>
    rw [hbuilt] at hnone
    cases hnone
  | ok there =>
    rcases halike.shows.node q hq with heq | ⟨hne, hmissing, -⟩
    · exact heq
    · -- Every place above the file is a directory now.
      rw [directory_of_build hs hstart hnames hup hbuilt (isPrefix_above s p hq hne)] at hmissing
      cases hmissing

/-- **Stores that look alike on the way to a file** give the same result and change alike. -/
theorem writeFile_alike {s t : Store} (hs : s.IsTree) (ht : t.IsTree) {p : Path}
    (hdots : ".." ∉ p.names) (hshows : Shows (s.place p) s t) (labels : List String)
    (rows : List RatioRow) :
    (writeFile t p labels rows).2 = (writeFile s p labels rows).2 ∧
      Alike (s.place p) s t (writeFile s p labels rows).1 (writeFile t p labels rows).1 := by
  obtain ⟨hfault, halike, hway⟩ := makeParent_alike hs ht hdots hshows
  have hdir := (writes_makeParent s p).workingDir
  unfold writeFile
  generalize makeParent s p = outcome at *
  generalize makeParent t p = outcome' at *
  obtain ⟨s₁, fault⟩ := outcome
  obtain ⟨t₁, fault'⟩ := outcome'
  obtain rfl : fault' = fault := hfault
  cases fault' with
  | some cause => exact ⟨rfl, halike⟩
  | none =>
    have hplace : s₁.place p = s.place p := place_congr hdir p
    simp only []
    rcases @create_alike s₁ t₁ p hdots halike.shows.workingDir (by rw [hplace]; exact hway rfl) with
      ⟨cause, hs₁, ht₁⟩ | ⟨refusal, hnode, hs₁, ht₁⟩ | ⟨hne, hnode, hs₁, ht₁⟩
    · rw [hs₁, ht₁]
      exact ⟨rfl, halike⟩
    · rw [hs₁, ht₁]
      rw [hplace] at hnode ⊢
      simp only [halike.shows.node_eq, hnode, settle]
      exact ⟨trivial, halike⟩
    · rw [hs₁, ht₁]
      rw [hplace] at hne hnode ⊢
      have hput := halike.put hshows hne []
      simp only [hput.shows.node_eq, node?_put s₁ hne, if_true, settle]
      exact ⟨trivial, hput.put hshows hne _⟩

end BenchRatio.Table
