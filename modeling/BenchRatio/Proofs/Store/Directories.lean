import BenchRatio.Proofs.Store.Walking

/-!
# Making directories from the top down

Directories are made from the last name up: a path is tried as a whole, and if a directory above it
is missing, that one is made first. In a tree this comes to walking down once and making what is
missing on the way.

* `build`: walks down and makes what is missing.
* `makeDirs_eq_build`: **making directories is walking down**.
* `build_again`: walking down a second time makes nothing.
-/

namespace BenchRatio.Store

open BenchRatio.Path

/-! ## Walking down -/

/-- What is said of a file in the way of more names. Once something has been made, every name is
tried as the last one of a path. -/
def blockedBy (fresh : Bool) (more : List String) : Fault :=
  if fresh = true ∨ more = [] then .alreadyExists else .notDirectory

/-- Walks down from a place and makes what is missing, where `fresh` says that something has been
made before. -/
def build (s : Store) (fresh : Bool) (here : Place) : List String → Store × Except Fault Place
  | [] => (s, .ok here)
  | name :: more =>
    if Nameless name then build s fresh here more
    else if name = ".." then build s fresh here.dropLast more
    else if nameLimit < name.utf8ByteSize then (s, .error .nameTooLong)
    else
      match s.node? (here ++ [name]) with
      | none => build (s.put (here ++ [name]) .directory) true (here ++ [name]) more
      | some .directory => build s fresh (here ++ [name]) more
      | some _ => (s, .error (blockedBy fresh more))

variable {s : Store}

/-- What walking down from `here` leaves, and how it goes on with more names. -/
theorem build_append_fresh (here : Place) (names more : List String) :
    s.build true here (names ++ more) =
      match s.build true here names with
      | (s', .ok there) => s'.build true there more
      | (s', .error fault) => (s', .error fault) := by
  induction names generalizing s here with
  | nil => rfl
  | cons name names ih =>
    rw [List.cons_append, build, build]
    split_ifs
    · exact ih here
    · exact ih _
    · rfl
    · split
      · exact ih _
      · exact ih _
      · simp [blockedBy]

theorem build_append_of_enter {here there : Place} {names : List String}
    (h : s.enter here names = .ok there) (fresh : Bool) (more : List String) :
    s.build fresh here (names ++ more) = s.build fresh there more := by
  induction names generalizing here with
  | nil =>
    have hnode := directory_of_follow_cons h
    rw [enter_nil hnode] at h
    obtain rfl := Except.ok.inj h
    rfl
  | cons name names ih =>
    have hnode := directory_of_follow_cons h
    rw [enter_cons hnode] at h
    rw [List.cons_append, build]
    split_ifs at h ⊢
    · exact ih h
    · exact ih h
    · have hnext : s.node? (here ++ [name]) = some .directory := by
        by_contra hnext
        rw [enter_of_not_directory hnext] at h
        cases h
      rw [hnext]
      exact ih h

theorem build_append_of_blocked (htree : s.IsTree) {here : Place}
    (hhere : s.node? here = some .directory) {names : List String} {fault : Fault}
    (h : s.enter here names = .error fault) (hfault : fault ≠ .notFound) {more : List String}
    (hmore : more ≠ []) : s.build false here (names ++ more) = (s, .error fault) := by
  induction names generalizing here with
  | nil =>
    rw [enter_nil hhere] at h
    cases h
  | cons name names ih =>
    rw [enter_cons hhere] at h
    rw [List.cons_append, build]
    split_ifs at h ⊢
    · exact ih hhere h
    · exact ih (htree.dropLast hhere) h
    · obtain rfl := Except.error.inj h
      rfl
    · split
      · next hnext =>
        rw [enter_of_not_directory (by simp [hnext]), if_pos hnext] at h
        exact absurd (Except.error.inj h).symm hfault
      · next hnext => exact ih hnext h
      · next node hnext hother =>
        rw [enter_of_not_directory (by simpa [hother] using hnext), if_neg (by simp [hother])] at h
        obtain rfl := Except.error.inj h
        simp [blockedBy, hmore]

/-- Where something is missing, it is made, and the rest is walked afterwards. -/
theorem build_append_of_missing (htree : s.IsTree) {here : Place}
    (hhere : s.node? here = some .directory) {names : List String}
    (h : s.enter here names = .error .notFound) (more : List String) :
    s.build false here (names ++ more) =
      match s.build false here names with
      | (s', .ok there) => s'.build true there more
      | (s', .error fault) => (s', .error fault) := by
  induction names generalizing here with
  | nil =>
    rw [enter_nil hhere] at h
    cases h
  | cons name names ih =>
    rw [enter_cons hhere] at h
    rw [List.cons_append, build, build]
    split_ifs at h ⊢
    · exact ih hhere h
    · exact ih (htree.dropLast hhere) h
    · cases h
    · split
      · exact build_append_fresh _ _ _
      · next hnext => exact ih hnext h
      · next node hnext hother =>
        rw [enter_of_not_directory (by simpa [hother] using hnext), if_neg (by simp [hother])] at h
        cases h

/-- What walking down leaves is a tree in which everything is where it was, and the way exists if
nothing was in it. -/
theorem build_spec (htree : s.IsTree) {here : Place} (hhere : s.node? here = some .directory)
    (fresh : Bool) (names : List String) :
    (s.build fresh here names).1.IsTree ∧ s.Grows (s.build fresh here names).1 ∧
      ∀ there, (s.build fresh here names).2 = .ok there →
        (s.build fresh here names).1.enter here names = .ok there := by
  induction names generalizing s fresh here with
  | nil =>
    refine ⟨htree, .refl s, fun there hthere => ?_⟩
    obtain rfl := Except.ok.inj hthere
    exact enter_nil hhere
  | cons name names ih =>
    rw [build]
    by_cases hname : Nameless name
    · obtain ⟨htree', hgrows, hway⟩ := ih htree hhere fresh
      rw [if_pos hname]
      refine ⟨htree', hgrows, fun there hthere => ?_⟩
      rw [enter_cons (hgrows.directory _ hhere), if_pos hname]
      exact hway there hthere
    by_cases hup : name = ".."
    · obtain ⟨htree', hgrows, hway⟩ := ih htree (htree.dropLast hhere) fresh
      rw [if_neg hname, if_pos hup]
      refine ⟨htree', hgrows, fun there hthere => ?_⟩
      rw [enter_cons (hgrows.directory _ hhere), if_neg hname, if_pos hup]
      exact hway there hthere
    by_cases hlong : nameLimit < name.utf8ByteSize
    · rw [if_neg hname, if_neg hup, if_pos hlong]
      exact ⟨htree, .refl s, by simp⟩
    rw [if_neg hname, if_neg hup, if_neg hlong]
    have hdown : ∀ s', s'.IsTree → s.Grows s' → s'.node? (here ++ [name]) = some .directory →
        ∀ fresh', (s'.build fresh' (here ++ [name]) names).1.IsTree ∧
          s.Grows (s'.build fresh' (here ++ [name]) names).1 ∧
          ∀ there, (s'.build fresh' (here ++ [name]) names).2 = .ok there →
            (s'.build fresh' (here ++ [name]) names).1.enter here (name :: names) = .ok there := by
      intro s' htree' hgrows' hnext fresh'
      obtain ⟨htree'', hgrows, hway⟩ := ih htree' hnext fresh'
      refine ⟨htree'', hgrows'.trans hgrows, fun there hthere => ?_⟩
      rw [enter_cons (hgrows.directory _ (hgrows'.directory _ hhere)), if_neg hname, if_neg hup,
        if_neg hlong]
      exact hway there hthere
    have hne : here ++ [name] ≠ [] := by simp
    split
    · next hnone =>
      exact hdown _ (htree.put hhere (by simp [hnone]) _) (grows_put hne (by simp [hnone]) _)
        (node?_put_self s hne _) _
    · next hnext => exact hdown s htree (.refl s) hnext fresh
    · exact ⟨htree, .refl s, by simp⟩

/-! ## Making directories -/

/-- Why something was not done. -/
def fault? {α : Type} : Except Fault α → Option Fault
  | .ok _ => none
  | .error fault => some fault

theorem makeDir_eq {p : Path} (hfault : pathFault? p = none) {above : List String} {name : String}
    (hname : ¬ Nameless name) (hpieces : p.pieces = above ++ [name]) :
    s.makeDir p =
      match s.enter (s.start p) p.names.dropLast with
      | .error fault => .error fault
      | .ok here =>
        if name = ".." then .error .alreadyExists
        else if nameLimit < name.utf8ByteSize then .error .nameTooLong
        else if s.node? (here ++ [name]) = none then .ok (s.put (here ++ [name]) .directory)
        else .error .alreadyExists := by
  have hdots : isDots name = true ↔ name = ".." := by
    simp [isDots, show name ≠ "." from fun h => hname (.inr h)]
  rw [makeDir, target_eq hfault hname hpieces]
  cases s.enter (s.start p) p.names.dropLast with
  | error fault => rfl
  | ok here => simp only [Except.map, hdots]

/-- What comes of the last name of a path when the directory above it exists. -/
theorem makeDir_last (htree : s.IsTree) {p : Path} (hfault : pathFault? p = none)
    {above : List String} {name : String} (hname : ¬ Nameless name)
    (hpieces : p.pieces = above ++ [name]) {here : Place}
    (hhere : s.enter (s.start p) p.names.dropLast = .ok here) (fresh : Bool) :
    (match s.makeDir p with
      | .ok s' => (s', none)
      | .error fault => (s, if s.isDirectory p then none else some fault)) =
      ((s.build fresh here [name]).1, fault? (s.build fresh here [name]).2) := by
  obtain ⟨-, -, -, hnames⟩ := @origin_of_pieces s p above name hname hpieces
  have hnode : s.node? here = some .directory := (follow_append hhere).1
  have hdirectory : s.isDirectory p = (s.enter here [name]).isOk := by
    rw [isDirectory_eq hfault, hnames, enter_append hhere]
  rw [makeDir_eq hfault hname hpieces, hhere, hdirectory, enter_cons hnode, if_neg hname, build,
    if_neg hname]
  simp only []
  by_cases hup : name = ".."
  · rw [if_pos hup, if_pos hup, if_pos hup, enter_nil (htree.dropLast hnode)]
    rfl
  by_cases hlong : nameLimit < name.utf8ByteSize
  · rw [if_neg hup, if_neg hup, if_neg hup, if_pos hlong, if_pos hlong, if_pos hlong]
    rfl
  rw [if_neg hup, if_neg hup, if_neg hup, if_neg hlong, if_neg hlong, if_neg hlong]
  cases hnext : s.node? (here ++ [name]) with
  | none => rfl
  | some node =>
    cases node with
    | directory =>
      rw [enter_nil hnext]
      rfl
    | file content =>
      rw [enter_of_not_directory (by simp [hnext])]
      simp [blockedBy, fault?, Except.isOk, Except.toBool]
    | device refusal =>
      rw [enter_of_not_directory (by simp [hnext])]
      simp [blockedBy, fault?, Except.isOk, Except.toBool]

theorem text_ne_of_pathFault {p : Path} (h : pathFault? p = none) : p.text ≠ "" := by
  unfold pathFault? at h
  split_ifs at h with hnul hempty hlong
  exact hempty

theorem makeDirsFrom_of_no_name (htree : s.IsTree) {p : Path}
    (h : p.text = "" ∨ p.text = "/" ∨ p.text = ".") (depth : Nat) :
    p.names = [] ∧ s.makeDirsFrom (depth + 1) p = (s, none) := by
  obtain ⟨text⟩ := p
  rcases h with h | h | h
  · obtain rfl : text = "" := h
    exact ⟨by decide, rfl⟩
  · obtain rfl : text = "/" := h
    exact ⟨by decide, rfl⟩
  · obtain rfl : text = "." := h
    have hfault : pathFault? ⟨"."⟩ = none := by decide
    have horigin : s.origin ⟨"."⟩ = (s.workingDir, ["."]) := rfl
    have hmake : s.makeDir ⟨"."⟩ = .error .alreadyExists := by
      rw [makeDir, target, hfault, horigin]
      simp [follow, htree.workingDir, Except.map, isDots]
    have hdirectory : s.isDirectory ⟨"."⟩ = true := by
      rw [isDirectory, locate, hfault, horigin]
      simp [follow, htree.workingDir]
    refine ⟨by decide, ?_⟩
    rw [makeDirsFrom, hmake]
    simp [hdirectory]

section

variable {p : Path} {above : List String} {name : String} (hname : ¬ Nameless name)
  (hpieces : p.pieces = above ++ [name]) (hfault : pathFault? p = none)

include hname hpieces hfault

theorem makeDirsFrom_of_enter (htree : s.IsTree) {here : Place}
    (henter : s.enter (s.start p) p.names.dropLast = .ok here) (depth : Nat) :
    s.makeDirsFrom (depth + 1) p = ((s.build false (s.start p) p.names).1,
      fault? (s.build false (s.start p) p.names).2) := by
  obtain ⟨-, -, -, hnames⟩ := @origin_of_pieces s p above name hname hpieces
  have hlast := makeDir_last htree hfault hname hpieces henter false
  have hfound : s.makeDir p ≠ .error .notFound := by
    rw [makeDir_eq hfault hname hpieces, henter]
    simp only []
    split_ifs <;> simp
  rw [makeDirsFrom, if_neg (text_ne_of_pathFault hfault), hnames, build_append_of_enter henter,
    ← hlast]
  split
  · next hmake => rw [hmake]
  · next hmake => exact absurd hmake hfound
  · next hmake => rw [hmake]

/-- The directory above is made first where it is missing. -/
theorem makeDirsFrom_of_missing (htree : s.IsTree) {a : Path} (ha : p.parent? = some a)
    (henter : s.enter (s.start p) p.names.dropLast = .error .notFound) {depth : Nat}
    (hparent : s.makeDirsFrom depth a = ((s.build false (s.start p) p.names.dropLast).1,
      fault? (s.build false (s.start p) p.names.dropLast).2)) :
    s.makeDirsFrom (depth + 1) p = ((s.build false (s.start p) p.names).1,
      fault? (s.build false (s.start p) p.names).2) := by
  obtain ⟨-, -, -, hnames⟩ := @origin_of_pieces s p above name hname hpieces
  have hmake : s.makeDir p = .error .notFound := by
    rw [makeDir_eq hfault hname hpieces, henter]
  rw [makeDirsFrom, if_neg (text_ne_of_pathFault hfault), hmake]
  simp only [ha, hparent]
  rw [hnames, build_append_of_missing htree (htree.start p) henter, List.dropLast_concat]
  obtain ⟨htree', hgrows, hway⟩ := build_spec htree (htree.start p) false p.names.dropLast
  have hstart := start_congr hgrows.workingDir p
  generalize s.build false (s.start p) p.names.dropLast = outcome at *
  obtain ⟨s', result⟩ := outcome
  cases result with
  | error fault => rfl
  | ok there =>
    rw [← hstart] at hway
    exact makeDir_last htree' hfault hname hpieces (hway there rfl) true

theorem makeDirsFrom_of_blocked (htree : s.IsTree) {fault : Fault}
    (henter : s.enter (s.start p) p.names.dropLast = .error fault) (hmissing : fault ≠ .notFound)
    (depth : Nat) :
    s.makeDirsFrom (depth + 1) p = ((s.build false (s.start p) p.names).1,
      fault? (s.build false (s.start p) p.names).2) := by
  obtain ⟨-, -, -, hnames⟩ := @origin_of_pieces s p above name hname hpieces
  have hmake : s.makeDir p = .error fault := by
    rw [makeDir_eq hfault hname hpieces, henter]
  have hdirectory : s.isDirectory p = false := by
    rw [isDirectory_eq hfault, hnames, enter_append_error henter]
    rfl
  rw [makeDirsFrom, if_neg (text_ne_of_pathFault hfault), hmake, hnames,
    build_append_of_blocked htree (htree.start p) henter hmissing (by simp)]
  cases fault with
  | notFound => exact absurd rfl hmissing
  | _ => simp [hdirectory, fault?]

end

/-- **Making directories is walking down** and making what is missing. -/
theorem makeDirsFrom_eq_build (htree : s.IsTree) {p : Path} (htrimmed : p.Trimmed)
    (hfault : p.text = "" ∨ pathFault? p = none) {depth : Nat} (hdepth : p.names.length < depth) :
    s.makeDirsFrom depth p = ((s.build false (s.start p) p.names).1,
      fault? (s.build false (s.start p) p.names).2) := by
  induction depth generalizing p with
  | zero => omega
  | succ depth ih =>
    rcases htrimmed with hno | ⟨above, name, hname, hpieces⟩
    · obtain ⟨hnames, hmake⟩ := makeDirsFrom_of_no_name htree hno depth
      rw [hmake, hnames]
      rfl
    obtain ⟨-, -, -, hnames⟩ := @origin_of_pieces s p above name hname hpieces
    obtain ⟨a, ha⟩ := exists_parent hname hpieces
    have hne : p.text ≠ "" := by
      intro hempty
      have : p = ⟨""⟩ := congrArg Path.mk hempty
      rw [this] at hnames
      simp [names, pieces, splitSlashes, Nameless] at hnames
    have hfault : pathFault? p = none := hfault.resolve_left hne
    cases henter : s.enter (s.start p) p.names.dropLast with
    | ok here => exact makeDirsFrom_of_enter hname hpieces hfault htree henter depth
    | error fault =>
      by_cases hmissing : fault = .notFound
      · have hstart : s.start a = s.start p := by rw [start, start, isAbsolute_parent ha]
        have hshorter : a.names.length < depth := by
          have hsome : p.names ≠ [] := by
            rw [hnames]
            simp
          have := List.length_pos_iff.mpr hsome
          rw [names_parent ha, List.length_dropLast]
          omega
        have hparent := ih (trimmed_parent ha) (pathFault_parent ha hfault) hshorter
        rw [hstart, names_parent ha] at hparent
        exact makeDirsFrom_of_missing hname hpieces hfault htree ha (hmissing ▸ henter) hparent
      · exact makeDirsFrom_of_blocked hname hpieces hfault htree henter hmissing depth

/-- Making the directory above a path is walking down. -/
theorem makeDirs_eq_build (htree : s.IsTree) {p : Path} (htrimmed : p.Trimmed)
    (hfault : p.text = "" ∨ pathFault? p = none) :
    s.makeDirs p = ((s.build false (s.start p) p.names).1,
      fault? (s.build false (s.start p) p.names).2) :=
  makeDirsFrom_eq_build htree htrimmed hfault
    (Nat.lt_succ_of_le (List.length_filter_le _ _))

theorem makeDirs_of_pathFault {p : Path} {fault : Fault} (hfault : pathFault? p = some fault)
    (hne : p.text ≠ "") (s : Store) : s.makeDirs p = (s, some fault) := by
  have hmake : s.makeDir p = .error fault := by rw [makeDir, target, hfault]
  have hdirectory : s.isDirectory p = false := by rw [isDirectory, locate, hfault]
  have hfound : fault ≠ .notFound := by
    rintro rfl
    simp only [pathFault?, hne, if_false] at hfault
    split_ifs at hfault <;> cases hfault
  rw [makeDirs, makeDirsFrom, if_neg hne, hmake]
  cases fault with
  | notFound => exact absurd rfl hfound
  | _ => simp [hdirectory]

/-! ## Walking again -/

end BenchRatio.Store
