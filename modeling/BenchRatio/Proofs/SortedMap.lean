import BenchRatio.SortedMap
import Mathlib.Data.List.Dedup
import Mathlib.Tactic.Common

/-!
# Look-ups in finite maps

* `get?_eq_some_iff_mem`: look-ups find exactly the entries.
* `ext_get?`: two maps with the same look-ups are the same map.
* `get?_ofList_eq_some_iff`: of the pairs stored one after the other, the last one with a key
  counts.
* `insert_ofList`, `size_ofList`, `size_ofList_concat`: storing one more pair, and the number of
  keys.
* `ofList_congr`: only the order of pairs with the same key matters.
-/

namespace BenchRatio

section

variable {κ ν : Type}

/-- The last pair with the key `k` has the value `v`. -/
def LastIn (pairs : List (κ × ν)) (k : κ) (v : ν) : Prop :=
  ∃ before after, pairs = before ++ (k, v) :: after ∧ ∀ p ∈ after, p.1 ≠ k

theorem not_lastIn_nil {k : κ} {v : ν} : ¬ LastIn [] k v := by
  rintro ⟨before, after, h, -⟩
  simp at h

theorem lastIn_cons_iff {p : κ × ν} {pairs : List (κ × ν)} {k : κ} {v : ν} :
    LastIn (p :: pairs) k v ↔ LastIn pairs k v ∨ (p = (k, v) ∧ ∀ q ∈ pairs, q.1 ≠ k) := by
  constructor
  · rintro ⟨before, after, h, hafter⟩
    cases before with
    | nil =>
      obtain ⟨rfl, rfl⟩ := List.cons.inj h
      exact .inr ⟨rfl, hafter⟩
    | cons q before =>
      obtain ⟨rfl, rfl⟩ := List.cons.inj h
      exact .inl ⟨before, after, rfl, hafter⟩
  · rintro (⟨before, after, rfl, hafter⟩ | ⟨rfl, hpairs⟩)
    · exact ⟨p :: before, after, rfl, hafter⟩
    · exact ⟨[], pairs, rfl, hpairs⟩

theorem LastIn.mem {pairs : List (κ × ν)} {k : κ} {v : ν} (h : LastIn pairs k v) :
    (k, v) ∈ pairs := by
  obtain ⟨before, after, rfl, -⟩ := h
  exact List.mem_append_right _ List.mem_cons_self

theorem exists_lastIn [DecidableEq κ] {pairs : List (κ × ν)} {k : κ}
    (h : k ∈ pairs.map (·.1)) : ∃ v, LastIn pairs k v := by
  induction pairs with
  | nil => simp at h
  | cons p pairs ih =>
    by_cases hk : k ∈ pairs.map (·.1)
    · obtain ⟨v, hv⟩ := ih hk
      exact ⟨v, lastIn_cons_iff.mpr (.inl hv)⟩
    · obtain rfl : k = p.1 := by simpa [hk] using h
      refine ⟨p.2, lastIn_cons_iff.mpr (.inr ⟨rfl, fun q hq e => hk ?_⟩)⟩
      exact e ▸ List.mem_map_of_mem hq

/-- Only the pairs with a key matter for its last one. -/
theorem lastIn_filter_iff [DecidableEq κ] {pairs : List (κ × ν)} {k : κ} {v : ν} :
    LastIn (pairs.filter (·.1 = k)) k v ↔ LastIn pairs k v := by
  induction pairs with
  | nil => rfl
  | cons p pairs ih =>
    have hnone : (∀ q ∈ pairs.filter (·.1 = k), q.1 ≠ k) ↔ ∀ q ∈ pairs, q.1 ≠ k := by
      simp [List.mem_filter]
    by_cases hp : p.1 = k
    · rw [List.filter_cons_of_pos (by simpa using hp), lastIn_cons_iff, lastIn_cons_iff, ih, hnone]
    · have hne : p ≠ (k, v) := fun h => hp (congrArg Prod.fst h)
      rw [List.filter_cons_of_neg (by simpa using hp), lastIn_cons_iff, ih]
      simp [hne]

end

/-! ## Entry lists -/

namespace Entries

variable {κ ν : Type} [Ord κ] [Std.LawfulEqOrd κ]

theorem get?_eq_some_iff_mem {entries : List (κ × ν)} (h : Ascending entries) (k : κ) (v : ν) :
    get? k entries = some v ↔ (k, v) ∈ entries := by
  induction entries with
  | nil => simp [get?]
  | cons e rest ih =>
    obtain ⟨k', v'⟩ := e
    obtain ⟨hhead, hrest⟩ := List.pairwise_cons.mp h
    rw [get?]
    by_cases hk : compare k k' = .eq
    · obtain rfl := Std.LawfulEqCmp.eq_of_compare hk
      -- A second entry with this key would have to lie behind itself.
      have hnot : (k, v) ∉ rest := fun hmem => by
        have := hhead (k, v) hmem
        simp at this
      simp [hnot, eq_comm]
    · have hne : k ≠ k' := fun e => hk (e ▸ Std.ReflCmp.compare_self)
      rw [if_neg hk, ih hrest]
      simp [hne]

end Entries

/-! ## Maps -/

namespace SortedMap

variable {κ ν : Type} [Ord κ] [Std.TransOrd κ] [Std.LawfulEqOrd κ]

omit [Std.TransOrd κ] in
theorem get?_eq_some_iff_mem (m : SortedMap κ ν) (k : κ) (v : ν) :
    m.get? k = some v ↔ (k, v) ∈ m.entries :=
  Entries.get?_eq_some_iff_mem m.ascending k v

omit [Std.TransOrd κ] in
theorem mem_keys_iff (m : SortedMap κ ν) (k : κ) : k ∈ m.keys ↔ ∃ v, m.get? k = some v := by
  simp [keys, get?_eq_some_iff_mem]

theorem ext_get? {m n : SortedMap κ ν} (h : ∀ k, m.get? k = n.get? k) : m = n := by
  have hmem : ∀ e : κ × ν, e ∈ m.entries ↔ e ∈ n.entries := fun e => by
    rw [← get?_eq_some_iff_mem, ← get?_eq_some_iff_mem, h]
  obtain ⟨es, hes⟩ := m
  obtain ⟨fs, hfs⟩ := n
  suffices es = fs by subst this; rfl
  simp only at hmem
  unfold Entries.Ascending at hes hfs
  have nodup : ∀ {l : List (κ × ν)}, l.Pairwise (fun a b => compare a.1 b.1 = .lt) → l.Nodup :=
    fun hl => hl.imp fun {a b} hab e => by rw [e] at hab; simp at hab
  refine List.Perm.eq_of_pairwise ?_ hes hfs
    ((List.perm_ext_iff_of_nodup (nodup hes) (nodup hfs)).mpr hmem)
  intro a b _ _ hab hba
  exact absurd hba (Std.OrientedCmp.not_lt_of_lt hab)

theorem insert_insert [DecidableEq κ] (m : SortedMap κ ν) (k : κ) (v w : ν) :
    (m.insert k v).insert k w = m.insert k w := by
  refine ext_get? fun j => ?_
  rw [get?_insert, get?_insert, get?_insert]
  split <;> rfl

theorem get?_foldl_insert [DecidableEq κ] (pairs : List (κ × ν)) (m : SortedMap κ ν) (k : κ)
    (v : ν) :
    (pairs.foldl (fun m p => m.insert p.1 p.2) m).get? k = some v ↔
      LastIn pairs k v ∨ (m.get? k = some v ∧ ∀ p ∈ pairs, p.1 ≠ k) := by
  induction pairs generalizing m with
  | nil => simp [not_lastIn_nil]
  | cons p pairs ih =>
    rw [List.foldl_cons, ih, get?_insert, lastIn_cons_iff, List.forall_mem_cons, or_assoc]
    refine or_congr_right ?_
    obtain ⟨k', v'⟩ := p
    by_cases hk : k = k'
    · subst hk; simp
    · simp [hk, Ne.symm hk, eq_comm]

/-- **The last write wins.** A map holds the value of the last pair with a key. -/
theorem get?_ofList_eq_some_iff [DecidableEq κ] (pairs : List (κ × ν)) (k : κ) (v : ν) :
    (ofList pairs).get? k = some v ↔ LastIn pairs k v := by
  rw [ofList, get?_foldl_insert]
  simp

/-- The order of pairs with different keys does not matter. -/
theorem ofList_congr [DecidableEq κ] {pairs others : List (κ × ν)}
    (h : ∀ k, pairs.filter (·.1 = k) = others.filter (·.1 = k)) : ofList pairs = ofList others := by
  refine ext_get? fun k => Option.ext fun v => ?_
  rw [get?_ofList_eq_some_iff, get?_ofList_eq_some_iff, ← lastIn_filter_iff, h k, lastIn_filter_iff]

theorem mem_keys_ofList [DecidableEq κ] (pairs : List (κ × ν)) (k : κ) :
    k ∈ (ofList pairs).keys ↔ k ∈ pairs.map (·.1) := by
  rw [mem_keys_iff]
  simp only [get?_ofList_eq_some_iff]
  refine ⟨fun ⟨v, hv⟩ => List.mem_map_of_mem hv.mem, exists_lastIn⟩

theorem get?_ofList_eq_none_iff [DecidableEq κ] (pairs : List (κ × ν)) (k : κ) :
    (ofList pairs).get? k = none ↔ ∀ p ∈ pairs, p.1 ≠ k := by
  have hnone : (ofList pairs).get? k = none ↔ k ∉ (ofList pairs).keys := by
    rw [mem_keys_iff, ← Option.isSome_iff_exists, Option.not_isSome_iff_eq_none]
  rw [hnone, mem_keys_ofList]
  simp only [List.mem_map, not_exists, not_and, ne_eq]

theorem insert_ofList (pairs : List (κ × ν)) (k : κ) (v : ν) :
    (ofList pairs).insert k v = ofList (pairs ++ [(k, v)]) := by
  rw [ofList, ofList, List.foldl_concat]

omit [Std.TransOrd κ] in
theorem nodup_keys (m : SortedMap κ ν) : m.keys.Nodup :=
  m.keys_ascending.imp fun {a b} hab e => by rw [e] at hab; simp at hab

/-- A map has as many entries as there are keys among the pairs. -/
theorem size_ofList [DecidableEq κ] (pairs : List (κ × ν)) :
    (ofList pairs).size = (pairs.map (·.1)).dedup.length := by
  have hperm : (ofList pairs).keys.Perm (pairs.map (·.1)).dedup :=
    (List.perm_ext_iff_of_nodup (nodup_keys _) (List.nodup_dedup _)).mpr fun k => by
      rw [mem_keys_ofList, List.mem_dedup]
  rw [← hperm.length_eq, keys, List.length_map, size]

/-- Storing one more pair adds an entry if its key is new. -/
theorem size_ofList_concat [DecidableEq κ] (pairs : List (κ × ν)) (p : κ × ν) :
    (ofList (pairs ++ [p])).size =
      (ofList pairs).size + if p.1 ∈ pairs.map (·.1) then 0 else 1 := by
  have hperm := (List.perm_append_singleton p.1 (pairs.map (·.1))).dedup
  rw [size_ofList, size_ofList, List.map_append, List.map_singleton, hperm.length_eq]
  split
  · next h => rw [List.dedup_cons_of_mem h, Nat.add_zero]
  · next h => rw [List.dedup_cons_of_notMem h, List.length_cons]

omit [Std.TransOrd κ] [Std.LawfulEqOrd κ] in
theorem size_eq_zero_iff (m : SortedMap κ ν) : m.size = 0 ↔ m.keys = [] := by
  rw [← List.length_eq_zero_iff, keys, List.length_map, size]

end SortedMap

end BenchRatio
