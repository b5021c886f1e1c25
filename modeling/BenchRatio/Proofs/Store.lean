import BenchRatio.Proofs.SortedMap
import BenchRatio.Store
import Mathlib.Data.List.TakeWhile

/-!
# What changes in a store

Making directories and opening files only adds to a store: what was there stays there, a directory
stays a directory, and a path that led somewhere still leads to the same place.

* `follow_mono`, `locate_mono`: paths keep leading where they led.
* `follow_of_target`: where the last name of a path goes is where the path leads afterwards.
* `Builds`: nothing has changed but missing directories on the way to a path.
* `builds_makeDirs`: making directories builds, whether it fails or not.
* `Writes`: the same, and the path itself may lead to a file with another content.
* `create_cases`: opening a file for writing.
-/

namespace BenchRatio

/-- A path above another one, any number of last names away. -/
inductive Path.Above (a : Path) : Path → Prop
  | parent {p : Path} (h : p.parent? = some a) : Above a p
  | step {p b : Path} (h : p.parent? = some b) (above : Above a b) : Above a p

namespace Store

/-! ## Growth -/

/-- Everything that is there stays there, and directories stay directories. -/
structure Grows (s s' : Store) : Prop where
  workingDir : s'.workingDir = s.workingDir
  node : ∀ q, s.node? q ≠ none → s'.node? q ≠ none
  directory : ∀ q, s.node? q = some .directory → s'.node? q = some .directory

theorem Grows.refl (s : Store) : s.Grows s := ⟨rfl, fun _ => id, fun _ => id⟩

theorem Grows.trans {s t u : Store} (h1 : s.Grows t) (h2 : t.Grows u) : s.Grows u :=
  ⟨h2.workingDir.trans h1.workingDir, fun q hq => h2.node q (h1.node q hq),
    fun q hq => h2.directory q (h1.directory q hq)⟩

theorem node?_put_self (s : Store) {p : Place} (hp : p ≠ []) (n : Node) :
    (s.put p n).node? p = some n := by
  rw [node?_put s hp, if_pos rfl]

/-- The second content replaces the first one. -/
theorem put_put (s : Store) (p : Place) (n m : Node) : (s.put p n).put p m = s.put p m := by
  unfold put
  rw [SortedMap.insert_insert]

/-- Anything may be put where no directory is. -/
theorem grows_put {s : Store} {p : Place} (hp : p ≠ []) (h : s.node? p ≠ some .directory)
    (n : Node) : s.Grows (s.put p n) := by
  refine ⟨rfl, fun q hq => ?_, fun q hq => ?_⟩
  · rw [node?_put s hp]
    split
    · simp
    · exact hq
  · rw [node?_put s hp]
    split
    · next heq =>
      subst heq
      exact absurd hq h
    · exact hq

/-- Only a directory leads on. -/
theorem directory_of_follow_cons {s : Store} {here place : Place} {piece : String}
    {more : List String} (h : s.follow here (piece :: more) = .ok place) :
    s.node? here = some .directory := by
  rw [follow] at h
  cases hnode : s.node? here with
  | none =>
    rw [hnode] at h
    cases h
  | some node =>
    rw [hnode] at h
    cases node with
    | file content => cases h
    | device refusal => cases h
    | directory => rfl

theorem follow_mono {s s' : Store} (h : s.Grows s') {here place : Place} {pieces : List String}
    (hf : s.follow here pieces = .ok place) : s'.follow here pieces = .ok place := by
  induction pieces generalizing here with
  | nil =>
    rw [follow] at hf ⊢
    split at hf
    · cases hf
    · next hnode => rwa [if_neg (h.node here hnode)]
  | cons piece more ih =>
    have hnode := directory_of_follow_cons hf
    rw [follow, hnode] at hf
    rw [follow, h.directory here hnode]
    simp only [] at hf ⊢
    split_ifs at hf ⊢
    · exact ih hf
    · exact ih hf
    · exact ih hf

theorem origin_congr {s s' : Store} (h : s'.workingDir = s.workingDir) (p : Path) :
    s'.origin p = s.origin p := by
  unfold origin
  rw [h]

theorem locate_mono {s s' : Store} (h : s.Grows s') {p : Path} {place : Place}
    (hl : s.locate p = .ok place) : s'.locate p = .ok place := by
  unfold locate at hl ⊢
  rw [origin_congr h.workingDir]
  split at hl
  · cases hl
  · exact follow_mono h hl

/-! ## Targets -/

/-- A walk that asks for a directory at its end can be taken up from there. -/
theorem follow_append {s : Store} {here place : Place} {pieces : List String}
    (h : s.follow here (pieces ++ [""]) = .ok place) :
    s.node? place = some .directory ∧
      ∀ more, s.follow here (pieces ++ more) = s.follow place more := by
  induction pieces generalizing here with
  | nil =>
    have hnode := directory_of_follow_cons h
    simp [follow, hnode] at h
    subst h
    exact ⟨hnode, fun more => rfl⟩
  | cons piece pieces ih =>
    have hnode := directory_of_follow_cons h
    simp only [List.cons_append, follow, hnode] at h ⊢
    split_ifs at h ⊢
    · exact ih h
    · exact ih h
    · exact ih h

theorem follow_blanks {s : Store} {here : Place} (h : s.node? here = some .directory) (k : Nat) :
    s.follow here (List.replicate k "") = .ok here := by
  induction k with
  | zero => simp [follow, h]
  | succ k ih => simpa [List.replicate_succ, follow, h] using ih

/-- The directory above a path's last name exists, and the path is the way to that directory, the
name and slashes. -/
theorem target_eq_some {s : Store} {p : Path} {t : Target} (h : s.target p = .ok (some t)) :
    pathFault? p = none ∧ t.name ≠ "" ∧ ∃ above k,
      (s.origin p).2 = above ++ t.name :: List.replicate k "" ∧
        s.follow (s.origin p).1 (above ++ [""]) = .ok t.above ∧ (t.trailing = false → k = 0) := by
  unfold target at h
  split at h
  · cases h
  · next hfault =>
    generalize s.origin p = origin at *
    obtain ⟨start, pieces⟩ := origin
    simp only [] at h
    have hsplit := List.takeWhile_append_dropWhile (p := fun piece => decide (piece = ""))
      (l := pieces.reverse)
    split at h
    · cases h
    · next name above hdrop =>
      have hname : name ≠ "" := by
        intro hempty
        have := List.head?_dropWhile_not (fun piece => decide (piece = "")) pieces.reverse
        rw [hdrop, hempty] at this
        simp at this
      obtain ⟨k, hk⟩ : ∃ k, pieces.reverse.takeWhile (fun piece => decide (piece = "")) =
          List.replicate k "" := by
        refine ⟨_, List.eq_replicate_iff.mpr ⟨rfl, fun piece hpiece => ?_⟩⟩
        simpa using List.mem_takeWhile_imp hpiece
      have hpieces : pieces = above.reverse ++ name :: List.replicate k "" := by
        rw [hk, hdrop] at hsplit
        rw [← List.reverse_reverse pieces, ← hsplit]
        simp
      cases hfollow : s.follow start (above.reverse ++ [""]) with
      | error fault =>
        rw [hfollow] at h
        cases h
      | ok place =>
        rw [hfollow] at h
        obtain rfl : _ = t := Option.some.inj (Except.ok.inj h)
        refine ⟨hfault, hname, above.reverse, k, hpieces, hfollow, fun htrailing => ?_⟩
        cases k with
        | zero => rfl
        | succ k =>
          have hlast : pieces.getLast? = some "" := by
            rw [hpieces, List.replicate_succ', ← List.cons_append, ← List.append_assoc]
            exact List.getLast?_concat
          exact absurd hlast (of_decide_eq_false htrailing)

/-- What is put where a path's last name goes is where the path leads, if it is a directory or no
slash follows the name. -/
theorem locate_of_target {s s' : Store} {p : Path} {t : Target} (h : s.target p = .ok (some t))
    (hdots : isDots t.name = false) (hlength : ¬ nameLimit < t.name.utf8ByteSize)
    (hgrows : s.Grows s') {n : Node} (hnode : s'.node? (t.above ++ [t.name]) = some n)
    (hslash : n = .directory ∨ t.trailing = false) :
    s'.locate p = .ok (t.above ++ [t.name]) := by
  obtain ⟨hfault, hname, above, k, hpieces, hfollow, htrailing⟩ := target_eq_some h
  obtain ⟨hdirectory, happend⟩ := follow_append (follow_mono hgrows hfollow)
  simp only [isDots, decide_eq_false_iff_not, not_or] at hdots
  unfold locate
  rw [hfault, origin_congr hgrows.workingDir]
  simp only [hpieces, happend]
  rw [follow, hdirectory]
  simp only []
  rw [if_neg (by simp [hname, hdots.1]), if_neg hdots.2, if_neg hlength]
  rcases hslash with rfl | hslash
  · exact follow_blanks hnode k
  · rw [htrailing hslash, List.replicate_zero, follow, hnode]
    simp

/-! ## Making directories -/

/-- Nothing has changed but that directories were made where nothing was, on the way to a path: the
path itself or one above it leads there now. -/
structure Builds (p : Path) (s s' : Store) : Prop where
  workingDir : s'.workingDir = s.workingDir
  node : ∀ q, s'.node? q = s.node? q ∨ (s.node? q = none ∧ s'.node? q = some .directory ∧
    ∃ a, (a = p ∨ Path.Above a p) ∧ s'.locate a = .ok q)

theorem Builds.refl (p : Path) (s : Store) : Builds p s s := ⟨rfl, fun _ => .inl rfl⟩

theorem Builds.grows {p : Path} {s s' : Store} (h : Builds p s s') : s.Grows s' := by
  refine ⟨h.workingDir, fun q hq => ?_, fun q hq => ?_⟩
  · rcases h.node q with heq | ⟨-, hdir, -⟩
    · rwa [heq]
    · simp [hdir]
  · rcases h.node q with heq | ⟨hnone, -⟩
    · rwa [heq]
    · rw [hq] at hnone
      cases hnone

theorem Builds.of_parent {p above : Path} (hp : p.parent? = some above) {s s' : Store}
    (h : Builds above s s') : Builds p s s' := by
  refine ⟨h.workingDir, fun q => (h.node q).imp_right ?_⟩
  rintro ⟨hnone, hdir, a, rfl | ha, hlocate⟩
  · exact ⟨hnone, hdir, a, .inr (.parent hp), hlocate⟩
  · exact ⟨hnone, hdir, a, .inr (.step hp ha), hlocate⟩

theorem Builds.trans {p : Path} {s t u : Store} (h1 : Builds p s t) (h2 : Builds p t u) :
    Builds p s u := by
  refine ⟨h2.workingDir.trans h1.workingDir, fun q => ?_⟩
  rcases h1.node q with heq | ⟨hnone, hdir, a, ha, hlocate⟩
  · rw [← heq]
    exact h2.node q
  · exact .inr ⟨hnone, h2.grows.directory q hdir, a, ha, locate_mono h2.grows hlocate⟩

theorem builds_makeDir {s s' : Store} {p : Path} (h : s.makeDir p = .ok s') : Builds p s s' := by
  unfold makeDir at h
  split at h
  · cases h
  · cases h
  · next t ht =>
    split at h
    · cases h
    · next hdots =>
      split at h
      · cases h
      · next hlength =>
        split at h
        · next hnone =>
          cases h
          have hne : t.above ++ [t.name] ≠ [] := by simp
          have hgrows := grows_put hne (by rw [hnone]; simp) .directory
          have hnode := node?_put_self s hne .directory
          have hlocate := locate_of_target ht (Bool.eq_false_iff.mpr hdots) hlength hgrows hnode
            (.inl rfl)
          refine ⟨rfl, fun q => ?_⟩
          by_cases hq : q = t.above ++ [t.name]
          · subst hq
            exact .inr ⟨hnone, hnode, p, .inl rfl, hlocate⟩
          · left
            rw [node?_put s hne, if_neg hq]
        · cases h

theorem builds_makeDirsFrom (s : Store) (depth : Nat) (p : Path) :
    Builds p s (s.makeDirsFrom depth p).1 := by
  induction depth generalizing s p with
  | zero => exact .refl p s
  | succ depth ih =>
    rw [makeDirsFrom]
    split
    · exact .refl p s
    · split
      · next s' hmake => exact builds_makeDir hmake
      · split
        · exact .refl p s
        · next above habove =>
          have hbuilds := (ih s above).of_parent habove
          generalize s.makeDirsFrom depth above = outcome at *
          obtain ⟨s', fault⟩ := outcome
          cases fault with
          | some fault => exact hbuilds
          | none =>
            simp only []
            split
            · next s'' hmake => exact hbuilds.trans (builds_makeDir hmake)
            · exact hbuilds
      · exact .refl p s

/-- Making a directory and those above it changes nothing else, also if it fails. -/
theorem builds_makeDirs (s : Store) (p : Path) : Builds p s (s.makeDirs p).1 :=
  builds_makeDirsFrom s _ p

/-! ## Opening files -/

/-- A file that is opened for writing is empty and at the place where its path leads; what was there
was a file or nothing. A device is opened as it is. -/
theorem create_cases {s s' : Store} {p : Path} {place : Place}
    (h : s.create p = .ok (s', place)) :
    (s' = s ∧ ∃ refusal, s.node? place = some (.device refusal) ∧ s.locate p = .ok place) ∨
      (place ≠ [] ∧ s' = s.put place (.file []) ∧
        (s.node? place = none ∨ ∃ old, s.node? place = some (.file old)) ∧
        ∀ content, (s.put place (.file content)).locate p = .ok place) := by
  unfold create at h
  split at h
  · cases h
  · cases h
  · next t ht =>
    split at h
    · cases h
    · next hlast =>
      rw [not_or] at hlast
      split at h
      · cases h
      · next hlength =>
        have hne : t.above ++ [t.name] ≠ [] := by simp
        have hthere : ∀ {u : Store} {n : Node}, s.Grows u →
            u.node? (t.above ++ [t.name]) = some n → u.locate p = .ok (t.above ++ [t.name]) :=
          fun hgrows hnode => locate_of_target ht (Bool.eq_false_iff.mpr hlast.2) hlength hgrows
            hnode (.inr (Bool.eq_false_iff.mpr hlast.1))
        have hlocate : s.node? (t.above ++ [t.name]) ≠ some .directory →
            ∀ content, (s.put (t.above ++ [t.name]) (.file content)).locate p =
              .ok (t.above ++ [t.name]) :=
          fun hnode _ => hthere (grows_put hne hnode _) (node?_put_self s hne _)
        simp only [] at h
        split at h
        · cases h
        · next refusal hnode =>
          cases h
          exact .inl ⟨rfl, refusal, hnode, hthere (.refl s) hnode⟩
        · next old hnode =>
          cases h
          exact .inr ⟨hne, rfl, .inr ⟨old, hnode⟩, hlocate (by rw [hnode]; simp)⟩
        · next hnode =>
          cases h
          exact .inr ⟨hne, rfl, .inl hnode, hlocate (by rw [hnode]; simp)⟩

/-! ## Writing a file -/

/-- Nothing has changed but that directories were made where nothing was, above a path, and that the
path itself may lead to a file with a content, where a file or nothing was. -/
structure Writes (p : Path) (s s' : Store) : Prop where
  workingDir : s'.workingDir = s.workingDir
  node : ∀ q, s'.node? q = s.node? q ∨
    (s.node? q = none ∧ s'.node? q = some .directory ∧
      ∃ a, Path.Above a p ∧ s'.locate a = .ok q) ∨
    ((s.node? q = none ∨ ∃ old, s.node? q = some (.file old)) ∧
      (∃ content, s'.node? q = some (.file content)) ∧ s'.locate p = .ok q)

theorem Writes.refl (p : Path) (s : Store) : Writes p s s := ⟨rfl, fun _ => .inl rfl⟩

theorem Writes.grows {p : Path} {s s' : Store} (h : Writes p s s') : s.Grows s' := by
  refine ⟨h.workingDir, fun q hq => ?_, fun q hq => ?_⟩
  · rcases h.node q with heq | ⟨-, hdir, -⟩ | ⟨-, ⟨content, hfile⟩, -⟩
    · rwa [heq]
    · simp [hdir]
    · simp [hfile]
  · rcases h.node q with heq | ⟨hnone, -⟩ | ⟨hnone | ⟨old, hold⟩, -⟩
    · rwa [heq]
    · rw [hq] at hnone
      cases hnone
    · rw [hq] at hnone
      cases hnone
    · rw [hq] at hold
      cases hold

theorem Writes.of_builds {p above : Path} (hp : p.parent? = some above) {s s' : Store}
    (h : Builds above s s') : Writes p s s' := by
  refine ⟨h.workingDir, fun q => (h.node q).imp_right fun hmade => .inl ?_⟩
  obtain ⟨hnone, hdir, a, rfl | ha, hlocate⟩ := hmade
  · exact ⟨hnone, hdir, a, .parent hp, hlocate⟩
  · exact ⟨hnone, hdir, a, .step hp ha, hlocate⟩

/-- A file's content after directories have been made. -/
theorem Writes.put {p : Path} {s t : Store} (h : Writes p s t) {place : Place} (hne : place ≠ [])
    (hbefore : t.node? place = none ∨ ∃ old, t.node? place = some (.file old)) {content : Bytes}
    (hlocate : (t.put place (.file content)).locate p = .ok place) :
    Writes p s (t.put place (.file content)) := by
  have hgrows : t.Grows (t.put place (.file content)) :=
    grows_put hne (by rcases hbefore with h | ⟨old, h⟩ <;> simp [h]) _
  refine ⟨h.workingDir, fun q => ?_⟩
  by_cases hq : q = place
  · subst hq
    have hnode := node?_put_self t hne (.file content)
    refine .inr (.inr ⟨?_, ⟨content, hnode⟩, hlocate⟩)
    rcases h.node q with heq | ⟨hnone, -⟩ | ⟨hold, -⟩
    · rwa [← heq]
    · exact .inl hnone
    · exact hold
  · have hnode : (t.put place (.file content)).node? q = t.node? q := by
      rw [node?_put t hne, if_neg hq]
    rw [hnode]
    rcases h.node q with heq | ⟨hnone, hdir, a, ha, hl⟩ | ⟨hold, hfile, hl⟩
    · exact .inl heq
    · exact .inr (.inl ⟨hnone, hdir, a, ha, locate_mono hgrows hl⟩)
    · exact .inr (.inr ⟨hold, hfile, locate_mono hgrows hl⟩)

end Store

end BenchRatio
