import BenchRatio.Path
import BenchRatio.Store
import Mathlib.Tactic.Common

/-!
# The names of a path

A path is cut at its slashes into pieces. Empty pieces and dots name nothing; the others are the
names along the path.

* `pieces_slash`, `pieces_intercalate`: the pieces of texts that are put together.
* `pieces_parent`: **the parent of a path** has all its names but the last.
* `pieces_join`: joining puts the pieces of the name last.
-/

namespace BenchRatio.Path

/-- A piece that stays where it is. -/
def Nameless (piece : String) : Prop := piece = "" ∨ piece = "."

instance : DecidablePred Nameless := fun _ => inferInstanceAs (Decidable (_ ∨ _))

/-- The names along a path. Two dots are a name here: they lead somewhere. -/
def names (p : Path) : List String := p.pieces.filter (¬ Nameless ·)

/-! ## Pieces -/

theorem splitSlashes_eq (cs : List Char) : splitSlashes cs = cs.splitOn '/' := by
  induction cs with
  | nil => rfl
  | cons c cs ih =>
    rw [splitSlashes, List.splitOn, List.splitOnP_cons_eq_if_modifyHead, ← List.splitOn, ← ih]
    by_cases hc : c = '/'
    · simp [hc]
    · simp only [hc, if_false, beq_iff_eq]
      cases hsplit : splitSlashes cs with
      | nil => exact absurd hsplit (splitSlashes_ne_nil cs)
      | cons first more => rfl

theorem pieces_ne_nil (p : Path) : p.pieces ≠ [] := by
  simp [pieces, splitSlashes_ne_nil]

theorem text_eq_intercalate (p : Path) : "/".intercalate p.pieces = p.text := by
  have hid : String.toList ∘ String.ofList = id := funext fun _ => String.toList_ofList
  apply String.toList_injective
  rw [String.toList_intercalate, pieces, List.map_map, hid, List.map_id, splitSlashes_eq]
  exact List.intercalate_splitOn '/'

/-- A slash divides the pieces before it from those after it. -/
theorem pieces_slash (a b : String) : pieces ⟨a ++ "/" ++ b⟩ = pieces ⟨a⟩ ++ pieces ⟨b⟩ := by
  have hsplit : (a.toList ++ '/' :: b.toList).splitOn '/' =
      a.toList.splitOn '/' ++ b.toList.splitOn '/' :=
    List.splitOnP_append_cons _ _ rfl
  simp only [pieces, splitSlashes_eq]
  rw [← List.map_append, ← hsplit]
  simp

/-- What has no slash is one piece. -/
theorem pieces_of_no_slash {a : String} (h : '/' ∉ a.toList) : pieces ⟨a⟩ = [a] := by
  simp [pieces, splitSlashes_eq, List.splitOn_eq_singleton h]

theorem slash_notMem_splitSlashes (cs : List Char) : ∀ piece ∈ splitSlashes cs, '/' ∉ piece := by
  induction cs with
  | nil => simp [splitSlashes]
  | cons c cs ih =>
    rw [splitSlashes]
    split_ifs with hc
    · exact List.forall_mem_cons.mpr ⟨by simp, ih⟩
    · cases hsplit : splitSlashes cs with
      | nil => exact absurd hsplit (splitSlashes_ne_nil cs)
      | cons first more =>
        rw [hsplit] at ih
        obtain ⟨hfirst, hmore⟩ := List.forall_mem_cons.mp ih
        exact List.forall_mem_cons.mpr ⟨by simp [Ne.symm hc, hfirst], hmore⟩

theorem slash_notMem_of_mem_pieces {p : Path} {piece : String} (h : piece ∈ p.pieces) :
    '/' ∉ piece.toList := by
  obtain ⟨cs, hcs, rfl⟩ := List.mem_map.mp h
  rw [String.toList_ofList]
  exact slash_notMem_splitSlashes _ cs hcs

theorem pieces_intercalate {ks : List String} (hne : ks ≠ []) (h : ∀ k ∈ ks, '/' ∉ k.toList) :
    pieces ⟨"/".intercalate ks⟩ = ks := by
  induction ks with
  | nil => exact absurd rfl hne
  | cons k ks ih =>
    obtain ⟨hk, hks⟩ := List.forall_mem_cons.mp h
    cases ks with
    | nil => simpa using pieces_of_no_slash hk
    | cons k' ks =>
      rw [String.intercalate_cons_cons, pieces_slash, ih (by simp) hks, pieces_of_no_slash hk]
      rfl

/-- A path that starts at the root has an empty first piece, and others. -/
theorem isAbsolute_iff (p : Path) :
    p.isAbsolute = true ↔ ∃ more, more ≠ [] ∧ p.pieces = "" :: more := by
  unfold isAbsolute pieces
  cases p.text.toList with
  | nil => simp [splitSlashes]
  | cons c cs =>
    by_cases hc : c = '/'
    · simp [hc, splitSlashes, splitSlashes_ne_nil]
    · cases hsplit : splitSlashes cs with
      | nil => exact absurd hsplit (splitSlashes_ne_nil cs)
      | cons first more => simp [splitSlashes, hc, hsplit]

/-! ## The parent -/

/-- Only pieces that name nothing are dropped. -/
theorem eq_append_dropNameless (l : List String) :
    ∃ dropped, (∀ piece ∈ dropped, Nameless piece) ∧ l = dropped ++ dropNameless l := by
  fun_induction dropNameless l with
  | case1 => exact ⟨[], by simp, rfl⟩
  | case2 => exact ⟨[""], by simp [Nameless], rfl⟩
  | case3 first h => exact ⟨[], by simp, rfl⟩
  | case4 piece more _ hpiece ih =>
    obtain ⟨dropped, hdropped, hmore⟩ := ih
    exact ⟨piece :: dropped, List.forall_mem_cons.mpr ⟨hpiece, hdropped⟩, congrArg _ hmore⟩
  | case5 piece more => exact ⟨[], by simp, rfl⟩

/-- What is left starts with a name, or is a single dot or nothing. -/
theorem dropNameless_cases (l : List String) :
    dropNameless l = [] ∨ dropNameless l = ["."] ∨
      ∃ name more, ¬ Nameless name ∧ dropNameless l = name :: more := by
  fun_induction dropNameless l with
  | case1 => exact .inl rfl
  | case2 => exact .inl rfl
  | case3 first h =>
    by_cases hdot : first = "."
    · exact .inr (.inl (by rw [hdot]))
    · exact .inr (.inr ⟨first, [], by simp [Nameless, h, hdot], rfl⟩)
  | case4 piece more _ hpiece ih => exact ih
  | case5 piece more _ hpiece => exact .inr (.inr ⟨piece, more, hpiece, rfl⟩)

/-- A path is its parent's pieces, a name, and between and after them what names nothing. Where
nothing is kept, the parent is the place where the path starts. -/
theorem pieces_of_parent {p a : Path} (h : p.parent? = some a) :
    ∃ kept between name after, p.pieces = kept ++ between ++ name :: after ∧
      (∀ piece ∈ between, Nameless piece) ∧ (∀ piece ∈ after, Nameless piece) ∧
      (¬ Nameless name ∨ kept = [] ∧ between = [] ∧ name = ".") ∧
      (kept = [] ∧ a.text = (if p.isAbsolute then "/" else "") ∨
        a.pieces = kept ∧ (kept = ["."] ∨
          ∃ above last, ¬ Nameless last ∧ kept = above ++ [last])) := by
  obtain ⟨after, hafter, hpieces⟩ := eq_append_dropNameless p.pieces.reverse
  have hend := dropNameless_cases p.pieces.reverse
  rw [parent?] at h
  cases hdrop : dropNameless p.pieces.reverse with
  | nil => simp [hdrop] at h
  | cons name above =>
    rw [hdrop] at h hpieces hend
    simp only [] at h
    obtain ⟨between, hbetween, habove⟩ := eq_append_dropNameless above
    have hkept := dropNameless_cases above
    generalize dropNameless above = kept at *
    have hsplit : p.pieces = kept.reverse ++ between.reverse ++ name :: after.reverse := by
      rw [← List.reverse_reverse p.pieces, hpieces, habove]
      simp
    have hname : ¬ Nameless name ∨ kept.reverse = [] ∧ between.reverse = [] ∧ name = "." := by
      rcases hend with hnil | hdot | ⟨_, _, hname, hcons⟩
      · cases hnil
      · obtain ⟨rfl, rfl⟩ := List.cons.inj hdot
        exact .inr (by simpa [and_comm] using habove)
      · exact .inl ((List.cons.inj hcons).1 ▸ hname)
    refine ⟨kept.reverse, between.reverse, name, after.reverse, hsplit,
      by simpa using hbetween, by simpa using hafter, hname, ?_⟩
    cases kept with
    | nil =>
      obtain rfl := Option.some.inj h
      exact .inl ⟨rfl, rfl⟩
    | cons last more =>
      obtain rfl := Option.some.inj h
      refine .inr ⟨pieces_intercalate (by simp) fun piece hpiece => ?_, ?_⟩
      · have hmem : piece ∈ p.pieces := by
          rw [hsplit]
          exact List.mem_append_left _ (List.mem_append_left _ hpiece)
        exact slash_notMem_of_mem_pieces hmem
      · rcases hkept with hnil | hdot | ⟨_, above, hlast, hcons⟩
        · cases hnil
        · exact .inl (by rw [hdot]; rfl)
        · obtain ⟨rfl, rfl⟩ := List.cons.inj hcons
          exact .inr ⟨more.reverse, last, hlast, List.reverse_cons⟩

/-- A path that ends with a name has a parent. -/
theorem exists_parent {p : Path} {above : List String} {name : String} (hname : ¬ Nameless name)
    (hpieces : p.pieces = above ++ [name]) : ∃ a, p.parent? = some a := by
  have hkept : dropNameless p.pieces.reverse = name :: above.reverse := by
    rw [hpieces, List.reverse_append, List.reverse_singleton, List.singleton_append]
    cases above.reverse with
    | nil => exact if_neg fun h => hname (.inl h)
    | cons last more => exact if_neg hname
  rw [parent?, hkept]
  simp only []
  split <;> exact ⟨_, rfl⟩

theorem filter_eq_nil_of_nameless {l : List String} (h : ∀ piece ∈ l, Nameless piece) :
    l.filter (¬ Nameless ·) = [] := by
  simpa using h

/-- **The parent has all names but the last.** -/
theorem names_parent {p a : Path} (h : p.parent? = some a) : a.names = p.names.dropLast := by
  obtain ⟨kept, between, name, after, hpieces, hbetween, hafter, hname, ha⟩ := pieces_of_parent h
  have hp : p.names = kept.filter (¬ Nameless ·) ++ [name].filter (¬ Nameless ·) := by
    rw [names, hpieces, List.filter_append, List.filter_append, filter_eq_nil_of_nameless hbetween,
      ← List.singleton_append, List.filter_append, filter_eq_nil_of_nameless hafter]
    simp
  have haNames : a.names = kept.filter (¬ Nameless ·) := by
    rcases ha with ⟨rfl, htext⟩ | ⟨hpieces, -⟩
    · obtain ⟨text⟩ := a
      obtain rfl : text = _ := htext
      split <;> decide
    · rw [names, hpieces]
  rcases hname with hname | ⟨rfl, -, rfl⟩
  · rw [haNames, hp]
    simp [hname]
  · rw [haNames, hp]
    decide

/-- A path without a parent has no names. -/
theorem names_eq_nil_of_parent {p : Path} (h : p.parent? = none) : p.names = [] := by
  obtain ⟨after, hafter, hpieces⟩ := eq_append_dropNameless p.pieces.reverse
  have hnone : dropNameless p.pieces.reverse = [] := by
    rw [parent?] at h
    split at h
    · assumption
    · split at h <;> cases h
  rw [hnone, List.append_nil] at hpieces
  refine filter_eq_nil_of_nameless fun piece hpiece => hafter piece ?_
  rwa [← hpieces, List.mem_reverse]

/-- The parent starts where the path starts. -/
theorem isAbsolute_parent {p a : Path} (h : p.parent? = some a) :
    a.isAbsolute = p.isAbsolute := by
  obtain ⟨kept, between, name, after, hpieces, -, -, -, ha⟩ := pieces_of_parent h
  rcases ha with ⟨-, htext⟩ | ⟨ha, hend⟩
  · rw [isAbsolute, htext]
    split
    · next habsolute => exact habsolute.symm
    · next habsolute => simpa using habsolute
  · rw [Bool.eq_iff_iff, isAbsolute_iff, isAbsolute_iff, ha, hpieces]
    constructor
    · rintro ⟨more, hmore, rfl⟩
      exact ⟨more ++ between ++ name :: after, by simp, by simp⟩
    · rintro ⟨more, hmore, hcons⟩
      -- The first piece is kept, and it is not the only one: the last one is not empty.
      rcases hend with rfl | ⟨above, last, hlast, rfl⟩
      · simp at hcons
      · cases above with
        | nil => simp_all [Nameless]
        | cons first above =>
          obtain rfl : first = "" := (List.cons.inj hcons).1
          exact ⟨above ++ [last], by simp, rfl⟩

/-- The parent's text is the start of the path's. -/
theorem exists_text_eq_of_parent {p a : Path} (h : p.parent? = some a) :
    ∃ more, p.text = a.text ++ more := by
  obtain ⟨kept, between, name, after, hpieces, -, -, -, ha⟩ := pieces_of_parent h
  rcases ha with ⟨-, htext⟩ | ⟨ha, hend⟩
  · rw [htext]
    split
    · next habsolute =>
      obtain ⟨more, hmore, hcons⟩ := (isAbsolute_iff p).mp habsolute
      refine ⟨"/".intercalate more, ?_⟩
      rw [← text_eq_intercalate, hcons, String.intercalate_cons_of_ne_nil hmore]
      simp
    · exact ⟨p.text, by simp⟩
  · refine ⟨"/" ++ "/".intercalate (between ++ name :: after), ?_⟩
    rw [← text_eq_intercalate p, ← text_eq_intercalate a, hpieces, ha, List.append_assoc,
      String.intercalate_append_of_ne_nil (by rw [← ha]; exact pieces_ne_nil a) (by simp),
      String.append_assoc]

/-- What is wrong with the parent's text is wrong with the path's, unless it is empty. -/
theorem pathFault_parent {p a : Path} (h : p.parent? = some a)
    (hfault : Store.pathFault? p = none) : a.text = "" ∨ Store.pathFault? a = none := by
  obtain ⟨more, htext⟩ := exists_text_eq_of_parent h
  unfold Store.pathFault? at hfault ⊢
  split_ifs at hfault with hnul hempty hlong
  by_cases ha : a.text = ""
  · exact .inl ha
  · right
    rw [htext, String.toList_append, List.contains_eq_mem] at hnul
    rw [htext, String.utf8ByteSize_append] at hlong
    have hnul' : a.text.toList.contains '\x00' = false := by
      rw [List.contains_eq_mem]
      simp only [List.mem_append, not_or, decide_eq_true_eq] at hnul
      simpa using hnul.1
    simp only [hnul', Bool.false_eq_true, if_false]
    rw [if_neg ha, if_neg (by omega)]

/-- A path that ends with a name, or names nothing at all. -/
def Trimmed (p : Path) : Prop :=
  (p.text = "" ∨ p.text = "/" ∨ p.text = ".") ∨
    ∃ above name, ¬ Nameless name ∧ p.pieces = above ++ [name]

theorem trimmed_parent {p a : Path} (h : p.parent? = some a) : a.Trimmed := by
  obtain ⟨kept, between, name, after, hpieces, -, -, -, ha⟩ := pieces_of_parent h
  rcases ha with ⟨-, htext⟩ | ⟨ha, hdot | hend⟩
  · unfold Trimmed
    rw [htext]
    split <;> simp
  · left; right; right
    rw [← text_eq_intercalate, ha, hdot]
    rfl
  · rw [← ha] at hend
    exact .inr hend

/-! ## Joining -/

end BenchRatio.Path
