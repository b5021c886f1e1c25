/-!
# Finite maps in ascending key order

A finite map is the list of its entries in strictly ascending key order. The order is part of the
type, so two maps with the same look-ups are the same value, and walking a map always visits the
keys in the same order.

* `get?_insert`: an insertion is seen at its own key and nowhere else.
* `getThenInsert?_eq`: one walk both inserts and finds what was replaced.
* `keys_ascending`: the keys come in strictly ascending order, hence without repetition.
-/

namespace BenchRatio

/-! ## Entry lists -/

namespace Entries

variable {κ ν : Type} [Ord κ]

/-- Every key lies before all later ones. -/
def Ascending (entries : List (κ × ν)) : Prop :=
  entries.Pairwise fun a b => compare a.1 b.1 = .lt

/-- Places an entry before the first larger key, replacing an entry with the same key. -/
def insert (k : κ) (v : ν) : List (κ × ν) → List (κ × ν)
  | [] => [(k, v)]
  | (k', v') :: rest =>
    match compare k k' with
    | .lt => (k, v) :: (k', v') :: rest
    | .eq => (k, v) :: rest
    | .gt => (k', v') :: insert k v rest

/-- The value stored under a key. -/
def get? (k : κ) : List (κ × ν) → Option ν
  | [] => none
  | (k', v) :: rest => if compare k k' = .eq then some v else get? k rest

/-- Like `insert`, in one walk that also gives the value that was replaced. -/
def getThenInsert? (k : κ) (v : ν) : List (κ × ν) → Option ν × List (κ × ν)
  | [] => (none, [(k, v)])
  | (k', v') :: rest =>
    match compare k k' with
    | .lt => (none, (k, v) :: (k', v') :: rest)
    | .eq => (some v', (k, v) :: rest)
    | .gt =>
      let (old, rest') := getThenInsert? k v rest
      (old, (k', v') :: rest')

theorem mem_insert {k : κ} {v : ν} {e : κ × ν} {entries : List (κ × ν)}
    (h : e ∈ insert k v entries) : e = (k, v) ∨ e ∈ entries := by
  induction entries with
  | nil => simpa [insert] using h
  | cons head rest ih =>
    obtain ⟨k', v'⟩ := head
    rw [insert] at h
    split at h
    · simpa using h
    · rcases List.mem_cons.mp h with h | h
      · exact .inl h
      · exact .inr (List.mem_cons_of_mem _ h)
    · rcases List.mem_cons.mp h with h | h
      · exact .inr (h ▸ List.mem_cons_self)
      · exact (ih h).imp id (List.mem_cons_of_mem _)

theorem ascending_insert [Std.TransOrd κ] [Std.LawfulEqOrd κ] (k : κ) (v : ν)
    {entries : List (κ × ν)} (h : Ascending entries) : Ascending (insert k v entries) := by
  induction entries with
  | nil => simp [insert, Ascending]
  | cons head rest ih =>
    obtain ⟨k', v'⟩ := head
    have hrest := List.pairwise_cons.mp h
    rw [insert]
    split
    · next hlt =>
      refine List.pairwise_cons.mpr ⟨fun e he => ?_, h⟩
      rcases List.mem_cons.mp he with rfl | he
      · exact hlt
      · exact Std.TransCmp.lt_trans hlt (hrest.1 e he)
    · next heq =>
      obtain rfl := Std.LawfulEqCmp.eq_of_compare heq
      exact List.pairwise_cons.mpr hrest
    · next hgt =>
      refine List.pairwise_cons.mpr ⟨fun e he => ?_, ih hrest.2⟩
      rcases mem_insert he with rfl | he
      · exact Std.OrientedCmp.gt_iff_lt.mp hgt
      · exact hrest.1 e he

theorem get?_insert [Std.TransOrd κ] [Std.LawfulEqOrd κ] [DecidableEq κ] (k : κ) (v : ν) (j : κ)
    (entries : List (κ × ν)) :
    get? j (insert k v entries) = if j = k then some v else get? j entries := by
  have refl : ∀ a : κ, compare a a = .eq := fun a => Std.ReflCmp.compare_self
  have eq_iff : ∀ a b : κ, compare a b = .eq ↔ a = b := fun a b =>
    ⟨Std.LawfulEqCmp.eq_of_compare, fun h => h ▸ refl a⟩
  induction entries with
  | nil => simp [insert, get?, eq_iff]
  | cons head rest ih =>
    obtain ⟨k', v'⟩ := head
    rw [insert]
    split
    · simp [get?, eq_iff]
    · next heq =>
      obtain rfl := Std.LawfulEqCmp.eq_of_compare heq
      by_cases hj : j = k <;> simp [get?, eq_iff, hj]
    · next hgt =>
      have hne : k ≠ k' := fun e => by simp [e] at hgt
      by_cases hj : j = k'
      · subst hj; simp [get?, Ne.symm hne]
      · simp [get?, eq_iff, hj, ih]

/-- A key before all others is not found. -/
theorem get?_eq_none_of_lt {k : κ} {entries : List (κ × ν)}
    (h : ∀ e ∈ entries, compare k e.1 = .lt) : get? k entries = none := by
  induction entries with
  | nil => rfl
  | cons head rest ih =>
    obtain ⟨hhead, hrest⟩ := List.forall_mem_cons.mp h
    rw [get?, if_neg (by simp [hhead]), ih hrest]

theorem getThenInsert?_eq [Std.TransOrd κ] (k : κ) (v : ν) {entries : List (κ × ν)}
    (h : Ascending entries) :
    getThenInsert? k v entries = (get? k entries, insert k v entries) := by
  induction entries with
  | nil => rfl
  | cons head rest ih =>
    obtain ⟨k', v'⟩ := head
    obtain ⟨hhead, hrest⟩ := List.pairwise_cons.mp h
    rw [getThenInsert?, get?, insert]
    cases hk : compare k k' with
    | lt =>
      -- The walk stops here; the keys behind are larger still.
      have hnone : get? k rest = none :=
        get?_eq_none_of_lt fun e he => Std.TransCmp.lt_trans hk (hhead e he)
      simp [hnone]
    | eq => simp
    | gt => simp [ih hrest]

end Entries

/-! ## Maps -/

/-- A finite map, held as its entries in strictly ascending key order. -/
structure SortedMap (κ ν : Type) [Ord κ] where
  /-- The entries, smallest key first. -/
  entries : List (κ × ν)
  /-- The keys ascend strictly. -/
  ascending : Entries.Ascending entries

namespace SortedMap

variable {κ ν : Type} [Ord κ]

/-- The map without entries. -/
def empty : SortedMap κ ν := ⟨[], .nil⟩

instance : Inhabited (SortedMap κ ν) := ⟨empty⟩

/-- The value stored under a key. -/
def get? (m : SortedMap κ ν) (k : κ) : Option ν := Entries.get? k m.entries

/-- The keys in ascending order. -/
def keys (m : SortedMap κ ν) : List κ := m.entries.map (·.1)

/-- The number of keys. -/
def size (m : SortedMap κ ν) : Nat := m.entries.length

/-- Whether the map has no entry. -/
def isEmpty (m : SortedMap κ ν) : Bool := m.entries.isEmpty

/-- Stores a value under a key, in place of any earlier one. -/
def insert [Std.TransOrd κ] [Std.LawfulEqOrd κ] (m : SortedMap κ ν) (k : κ) (v : ν) :
    SortedMap κ ν :=
  ⟨Entries.insert k v m.entries, Entries.ascending_insert k v m.ascending⟩

/-- Stores a value under a key, and gives the value that it replaces. -/
def getThenInsert? [Std.TransOrd κ] [Std.LawfulEqOrd κ] (m : SortedMap κ ν) (k : κ) (v : ν) :
    Option ν × SortedMap κ ν :=
  let walked := Entries.getThenInsert? k v m.entries
  have hinsert : walked.2 = Entries.insert k v m.entries :=
    congrArg Prod.snd (Entries.getThenInsert?_eq k v m.ascending)
  (walked.1, ⟨walked.2, hinsert ▸ Entries.ascending_insert k v m.ascending⟩)

/-- Stores the pairs one after the other, so that a later pair wins over an earlier one. -/
def ofList [Std.TransOrd κ] [Std.LawfulEqOrd κ] (pairs : List (κ × ν)) : SortedMap κ ν :=
  pairs.foldl (fun m p => m.insert p.1 p.2) empty

@[simp] theorem get?_empty (k : κ) : (empty : SortedMap κ ν).get? k = none := rfl

theorem get?_insert [Std.TransOrd κ] [Std.LawfulEqOrd κ] [DecidableEq κ] (m : SortedMap κ ν)
    (k : κ) (v : ν) (j : κ) :
    (m.insert k v).get? j = if j = k then some v else m.get? j :=
  Entries.get?_insert k v j m.entries

/-- The value that is replaced is the one that a look-up would have given. -/
theorem getThenInsert?_eq [Std.TransOrd κ] [Std.LawfulEqOrd κ] (m : SortedMap κ ν) (k : κ)
    (v : ν) : m.getThenInsert? k v = (m.get? k, m.insert k v) := by
  have h := Entries.getThenInsert?_eq k v m.ascending
  simp only [getThenInsert?, get?, insert, h]

theorem keys_ascending (m : SortedMap κ ν) :
    m.keys.Pairwise fun a b => compare a b = .lt :=
  List.pairwise_map.mpr m.ascending

end SortedMap

end BenchRatio
