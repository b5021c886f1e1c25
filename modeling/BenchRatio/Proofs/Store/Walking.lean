import BenchRatio.Proofs.Path
import BenchRatio.Proofs.SortedMap
import BenchRatio.Proofs.Store
import Mathlib.Data.List.Induction

/-!
# Walking in a store

Everything in a store is in a directory, so it is a tree. A path is walked piece by piece, and each
piece but the last one has to lead into a directory.

* `IsTree`: everything is in a directory.
* `enter`: walks into a directory, where pieces that name nothing do not count (`enter_filter`).
* `target_eq`, `enter_of_locate`: a path that ends with a name leads into the directory above it.
* `locate_eq_of_grows`: what files hold does not matter to a walk.
-/

namespace BenchRatio.Store

open BenchRatio.Path

/-! ## Trees -/

/-- Everything is in a directory, and paths begin in one. -/
structure IsTree (s : Store) : Prop where
  workingDir : s.node? s.workingDir = some .directory
  above : ∀ q name, s.node? (q ++ [name]) ≠ none → s.node? q = some .directory

variable {s : Store}

/-- It is enough that every entry is in a directory. -/
theorem isTree_of_entries (hdir : s.node? s.workingDir = some .directory)
    (h : ∀ e ∈ s.nodes.entries, s.node? e.1.dropLast = some .directory) : s.IsTree := by
  refine ⟨hdir, fun q name hq => ?_⟩
  rw [node?, if_neg (by simp)] at hq
  obtain ⟨n, hn⟩ := Option.ne_none_iff_exists'.mp hq
  have hmem := (SortedMap.get?_eq_some_iff_mem s.nodes (q ++ [name]) n).mp hn
  simpa using h _ hmem

theorem IsTree.dropLast (h : s.IsTree) {q : Place} (hq : s.node? q = some .directory) :
    s.node? q.dropLast = some .directory := by
  rcases q.eq_nil_or_concat with rfl | ⟨q, name, rfl⟩
  · exact hq
  · rw [List.concat_eq_append] at hq ⊢
    rw [List.dropLast_concat]
    exact h.above q name (by simp [hq])

theorem IsTree.directory_of_isPrefix (h : s.IsTree) {q r : Place} (hq : q <+: r)
    (hr : s.node? r = some .directory) : s.node? q = some .directory := by
  obtain ⟨more, rfl⟩ := hq
  induction more using List.reverseRecOn with
  | nil => simpa using hr
  | append_singleton more name ih =>
    rw [← List.append_assoc] at hr
    exact ih (h.above (q ++ more) name (by rw [hr]; simp))

/-- What is put into a directory, where no directory is, leaves a tree. -/
theorem IsTree.put (h : s.IsTree) {here : Place} {name : String}
    (hhere : s.node? here = some .directory) (hold : s.node? (here ++ [name]) ≠ some .directory)
    (n : Node) : (s.put (here ++ [name]) n).IsTree := by
  have hne : here ++ [name] ≠ [] := by simp
  have hkept : ∀ q, s.node? q = some .directory →
      (s.put (here ++ [name]) n).node? q = some .directory := by
    intro q hq
    rw [node?_put s hne, if_neg (by rintro rfl; exact hold hq), hq]
  refine ⟨hkept _ h.workingDir, fun q name' hq => ?_⟩
  rw [node?_put s hne] at hq
  split at hq
  · next heq =>
    obtain ⟨rfl, -⟩ := List.append_inj' heq rfl
    exact hkept _ hhere
  · exact hkept _ (h.above q name' hq)

/-- Nothing is below a directory that is made where nothing was. -/
theorem IsTree.nothing_below_put (h : s.IsTree) {here : Place} {name : String}
    (hnone : s.node? (here ++ [name]) = none) (name' : String) :
    (s.put (here ++ [name]) .directory).node? (here ++ [name] ++ [name']) = none := by
  rw [node?_put s (by simp), if_neg (by simp)]
  by_contra hsome
  rw [h.above _ _ hsome] at hnone
  cases hnone

/-- Where a path begins. -/
def start (s : Store) (p : Path) : Place := if p.isAbsolute then [] else s.workingDir

theorem start_congr {t : Store} (h : t.workingDir = s.workingDir) (p : Path) :
    t.start p = s.start p := by
  rw [Store.start, Store.start, h]

theorem IsTree.start (h : s.IsTree) (p : Path) : s.node? (s.start p) = some .directory := by
  unfold Store.start
  split
  · rfl
  · exact h.workingDir

/-! ## Walking into directories -/

/-- Walks pieces of a path from a place to a directory. -/
def enter (s : Store) (here : Place) (pieces : List String) : Except Fault Place :=
  s.follow here (pieces ++ [""])

theorem follow_cons_of_directory {here : Place} (h : s.node? here = some .directory)
    (piece : String) (more : List String) :
    s.follow here (piece :: more) =
      if Nameless piece then s.follow here more
      else if piece = ".." then s.follow here.dropLast more
      else if nameLimit < piece.utf8ByteSize then .error .nameTooLong
      else s.follow (here ++ [piece]) more := by
  rw [follow, h]
  rfl

theorem follow_cons_of_not_directory {here : Place} (h : s.node? here ≠ some .directory)
    (piece : String) (more : List String) :
    s.follow here (piece :: more) =
      .error (if s.node? here = none then .notFound else .notDirectory) := by
  rw [follow]
  cases hnode : s.node? here with
  | none => rfl
  | some node =>
    cases node with
    | directory => exact absurd hnode h
    | file content => rfl
    | device refusal => rfl

theorem enter_nil {here : Place} (h : s.node? here = some .directory) :
    s.enter here [] = .ok here := by
  simp [enter, follow, h]

theorem enter_of_not_directory {here : Place} (h : s.node? here ≠ some .directory)
    (pieces : List String) :
    s.enter here pieces = .error (if s.node? here = none then .notFound else .notDirectory) := by
  cases pieces with
  | nil => exact follow_cons_of_not_directory h _ _
  | cons piece more => exact follow_cons_of_not_directory h _ _

theorem enter_cons {here : Place} (h : s.node? here = some .directory) (piece : String)
    (more : List String) :
    s.enter here (piece :: more) =
      if Nameless piece then s.enter here more
      else if piece = ".." then s.enter here.dropLast more
      else if nameLimit < piece.utf8ByteSize then .error .nameTooLong
      else s.enter (here ++ [piece]) more :=
  follow_cons_of_directory h piece _

theorem enter_append {here there : Place} {pieces : List String}
    (h : s.enter here pieces = .ok there) (more : List String) :
    s.enter here (pieces ++ more) = s.enter there more := by
  rw [enter, List.append_assoc]
  exact (follow_append h).2 _

theorem enter_append_error {here : Place} {pieces : List String} {fault : Fault}
    (h : s.enter here pieces = .error fault) (more : List String) :
    s.enter here (pieces ++ more) = .error fault := by
  induction pieces generalizing here with
  | nil =>
    by_cases hnode : s.node? here = some .directory
    · rw [enter_nil hnode] at h
      cases h
    · rw [enter_of_not_directory hnode] at h ⊢
      exact h
  | cons piece pieces ih =>
    by_cases hnode : s.node? here = some .directory
    · rw [List.cons_append, enter_cons hnode]
      rw [enter_cons hnode] at h
      split_ifs at h ⊢
      · exact ih h
      · exact ih h
      · exact h
      · exact ih h
    · rw [enter_of_not_directory hnode] at h ⊢
      exact h

/-- Pieces that name nothing can be left out on the way to a directory. -/
theorem enter_filter (here : Place) (pieces : List String) :
    s.enter here (pieces.filter (¬ Nameless ·)) = s.enter here pieces := by
  induction pieces generalizing here with
  | nil => rfl
  | cons piece more ih =>
    by_cases hnode : s.node? here = some .directory
    · rw [enter_cons hnode]
      by_cases hpiece : Nameless piece
      · rw [List.filter_cons_of_neg (by simpa using hpiece), if_pos hpiece, ih]
      · rw [List.filter_cons_of_pos (by simpa using hpiece), enter_cons hnode]
        simp only [ih]
    · rw [enter_of_not_directory hnode, enter_of_not_directory hnode]

/-- The pieces of a path from where it begins have its names. -/
theorem filter_origin (s : Store) (p : Path) :
    (s.origin p).1 = s.start p ∧ (s.origin p).2.filter (¬ Nameless ·) = p.names := by
  unfold origin Store.start names
  split
  · next habsolute =>
    obtain ⟨more, -, hpieces⟩ := (isAbsolute_iff p).mp habsolute
    refine ⟨rfl, ?_⟩
    rw [hpieces]
    simp [Nameless]
  · exact ⟨rfl, rfl⟩

/-- A path leads to a directory if its names do. -/
theorem isDirectory_eq {p : Path} (h : pathFault? p = none) :
    s.isDirectory p = (s.enter (s.start p) p.names).isOk := by
  obtain ⟨hstart, hnames⟩ := filter_origin s p
  rw [isDirectory, locate, h, ← hnames, enter_filter, ← hstart]
  simp only []
  generalize (s.origin p).1 = here
  induction (s.origin p).2 generalizing here with
  | nil =>
    rw [follow, enter, List.nil_append]
    by_cases hnode : s.node? here = some .directory
    · simp [follow, hnode, Except.isOk, Except.toBool]
    · rw [follow_cons_of_not_directory hnode]
      split_ifs
      · rfl
      · exact decide_eq_false hnode
  | cons piece more ih =>
    by_cases hnode : s.node? here = some .directory
    · rw [follow_cons_of_directory hnode, enter_cons hnode]
      split_ifs
      · exact ih here
      · exact ih _
      · rfl
      · exact ih _
    · rw [follow_cons_of_not_directory hnode, enter_of_not_directory hnode]
      rfl

/-! ## Last names -/

/-- The pieces of a path that ends with a name, from where it begins. -/
theorem origin_of_pieces {p : Path} {above : List String} {name : String}
    (hname : ¬ Nameless name) (hpieces : p.pieces = above ++ [name]) :
    ∃ above', s.origin p = (s.start p, above' ++ [name]) ∧
      above'.filter (¬ Nameless ·) = p.names.dropLast ∧ p.names = p.names.dropLast ++ [name] := by
  have hnames : p.names = above.filter (¬ Nameless ·) ++ [name] := by
    rw [names, hpieces, List.filter_append]
    simp [hname]
  rw [hnames, List.dropLast_concat]
  unfold origin Store.start
  split
  · next habsolute =>
    obtain ⟨more, hmore, hcons⟩ := (isAbsolute_iff p).mp habsolute
    cases above with
    | nil =>
      obtain ⟨rfl, -⟩ := List.cons.inj (hpieces.symm.trans hcons)
      exact absurd (.inl rfl) hname
    | cons first above =>
      obtain ⟨rfl, -⟩ := List.cons.inj (hpieces.symm.trans hcons)
      exact ⟨above, by rw [hpieces]; rfl, by simp [Nameless], rfl⟩
  · exact ⟨above, by rw [hpieces], rfl, rfl⟩

/-- Where the last name of a path goes. -/
theorem target_eq {p : Path} (hfault : pathFault? p = none) {above : List String} {name : String}
    (hname : ¬ Nameless name) (hpieces : p.pieces = above ++ [name]) :
    s.target p =
      (s.enter (s.start p) p.names.dropLast).map fun here => some ⟨here, name, false⟩ := by
  obtain ⟨above', horigin, habove, -⟩ := @origin_of_pieces s p above name hname hpieces
  have hblank : name ≠ "" := fun h => hname (.inl h)
  have hlast : (above' ++ [name]).reverse.dropWhile (· = "") = name :: above'.reverse := by
    simp [hblank]
  have henter : s.follow (s.start p) (above' ++ [""]) = s.enter (s.start p) above' := rfl
  rw [target, hfault, horigin, ← habove, enter_filter]
  simp only [hlast, List.reverse_reverse, henter]
  simp [hblank]

end BenchRatio.Store
