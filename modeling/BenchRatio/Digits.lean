/-!
# Numbers from digits

A number is written with its highest digit first. Taking up one digit after the other costs a
multiplication of the whole number each time, so neighbours are joined to digits of the squared base
instead, until one or two digits are left.

* `Digits.number`: the number that digits spell in a base.
* `total_joined`: joining neighbours changes no number.
* `number_eq_foldl`: the number is the one that taking up digit after digit gives.
-/

namespace BenchRatio.Digits

/-- The value of a digit. The letters, in either case, go on after nine. -/
def value (c : Char) : Nat :=
  if c.isDigit then c.toNat - '0'.toNat
  else if 'a' ≤ c then c.toNat - 'a'.toNat + 10
  else c.toNat - 'A'.toNat + 10

/-- The number with the given digits, the lowest first. -/
def total (base : Nat) : List Nat → Nat
  | [] => 0
  | d :: ds => d + base * total base ds

/-- Joins each two neighbours, the lower one first, to a digit of the squared base. -/
def joined (base : Nat) : List Nat → List Nat
  | low :: high :: ds => (low + base * high) :: joined base ds
  | ds => ds

/-- The number with the given digits, the lowest first, where neighbours are joined in so many
rounds before anything is added up. -/
def joinedTotal : Nat → Nat → List Nat → Nat
  | 0, base, ds => total base ds
  | rounds + 1, base, ds => joinedTotal rounds (base * base) (joined base ds)

/-- The number that digits spell in a base. Each round halves the digits, so a logarithm of their
number is how many rounds there are. -/
def number (base : Nat) (ds : List Char) : Nat :=
  joinedTotal ds.length.log2 base (ds.reverse.map value)

/-! ## Joining changes nothing -/

theorem total_joined (base : Nat) (ds : List Nat) :
    total (base * base) (joined base ds) = total base ds := by
  fun_induction joined base ds with
  | case1 low high ds ih =>
    rw [total, ih, total, total, Nat.mul_add, Nat.mul_assoc, Nat.add_assoc]
  | case2 ds hds =>
    match ds with
    | [] => rfl
    | [d] => rw [total, total, total, total, Nat.mul_zero, Nat.mul_zero]
    | low :: high :: ds => exact (hds low high ds rfl).elim

theorem joinedTotal_eq (rounds base : Nat) (ds : List Nat) :
    joinedTotal rounds base ds = total base ds := by
  induction rounds generalizing base ds with
  | zero => rfl
  | succ rounds ih => rw [joinedTotal, ih, total_joined]

theorem total_eq_foldr (base : Nat) (ds : List Nat) :
    total base ds = ds.foldr (fun d n => d + base * n) 0 := by
  induction ds with
  | nil => rfl
  | cons d ds ih => rw [total, List.foldr_cons, ih]

theorem number_eq_foldl (base : Nat) (ds : List Char) :
    number base ds = ds.foldl (fun n d => value d + base * n) 0 := by
  rw [number, joinedTotal_eq, total_eq_foldr, List.foldr_map, List.foldr_reverse]

example : number 10 "1234567".toList = 1234567 := by decide +kernel
example : number 16 "7fFf".toList = 32767 := by decide +kernel

end BenchRatio.Digits
