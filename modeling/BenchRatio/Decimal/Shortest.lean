import BenchRatio.Decimal.Numeral

/-!
# The shortest decimal that reads back

The numbers that are nearest to a measurement form an interval around it; the ends belong to it
when the measurement's coefficient is even. Of the grids of multiples of `10 ^ k`, the coarsest one
with a point in that interval gives the fewest digits, and if a grid has a point there, one of the
two grid points around the measurement is such a point.

* `shortest`: the point of the coarsest such grid that is nearer to the measurement.
-/

namespace BenchRatio.Decimal

/-- Which of two equally near decimals is written. -/
inductive Tie
  | up
  | even
  deriving DecidableEq, Repr

/-- The interval of the numbers nearest to `m * 2 ^ q`, measured in quarters of `2 ^ q`. -/
structure Interval where
  low : Nat
  mid : Nat
  high : Nat
  /-- Whether the ends belong to the interval. -/
  closed : Bool

/-- The interval of a positive measurement `m * 2 ^ q`. The number below the first one of a scale
is only half a step away, unless that scale is the smallest. -/
def Interval.ofFinite (m : Nat) (q : Int) : Interval where
  low := if m = Binary64.leadingBit ∧ -1074 < q then 4 * m - 1 else 4 * m - 2
  mid := 4 * m
  high := 4 * m + 2
  closed := m % 2 = 0

/-- The point of the grid of multiples of `10 ^ k` that is in the interval and nearest to its
middle, as the multiple, if there is one. One quarter of the interval's unit is `num / den` steps of
the grid. -/
def Interval.gridPoint? (i : Interval) (tie : Tie) (num den : Nat) : Option Nat :=
  let below := i.mid * num / den
  let above := below + 1
  let inside (lo hi : Nat) : Bool := if i.closed then lo ≤ hi else lo < hi
  let belowIn := inside (i.low * num) (below * den) && below ≠ 0
  let aboveIn := inside (above * den) (i.high * num)
  if belowIn && aboveIn then
    match compare (2 * i.mid * num) ((below + above) * den) with
    | .lt => some below
    | .gt => some above
    | .eq => some (if tie = .even ∧ below % 2 = 0 then below else above)
  else if belowIn then some below
  else if aboveIn then some above
  else none

/-- The grid point for the exponent `k` in the interval of `m * 2 ^ q`, as a decimal. -/
def onGrid? (tie : Tie) (m : Nat) (q k : Int) : Option Decimal :=
  let num := Nat.pow 2 (q - 2).toNat * Nat.pow 10 (-k).toNat
  let den := Nat.pow 2 (2 - q).toNat * Nat.pow 10 k.toNat
  ((Interval.ofFinite m q).gridPoint? tie num den).map fun n => ⟨n, k⟩

/-- An exponent `k` with `m * 2 ^ q ≤ 10 ^ k`, hardly larger than needed: the decimal logarithm of
two is below 0.30103. -/
def topExponent (m : Nat) (q : Int) : Int := ((m.log2 + 1 : Nat) + q) * 30103 / 100000 + 1

/-- The number `m * 2 ^ q` itself as a decimal. -/
def exact (m : Nat) (q : Int) : Decimal :=
  if 0 ≤ q then ⟨m * Nat.pow 2 q.toNat, 0⟩ else ⟨m * Nat.pow 5 (-q).toNat, q⟩

/-- The shortest decimal that is nearest to the positive measurement `m * 2 ^ q`, and of those the
one nearest to it. Twenty grids always have one among them; the number itself ends the search. -/
def shortest (tie : Tie) (m : Nat) (q : Int) : Decimal :=
  let top := topExponent m q
  ((List.range 20).findSome? fun (i : Nat) => onGrid? tie m q (top - i)).getD (exact m q)

end BenchRatio.Decimal
