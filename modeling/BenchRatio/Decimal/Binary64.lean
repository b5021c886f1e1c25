/-!
# Measurements as exact numbers

A measurement is a `Float`, an IEEE binary64 number. This file says what number its bits stand for
and which measurement is nearest to a fraction, in exact integer arithmetic.

* `magnitude`: not a number, infinite, or `m * 2 ^ q`.
* `nearest`: the measurement nearest to a fraction, a tie going to the even neighbour; from half a
  step beyond the largest finite measurement on, it is infinite.
-/

namespace BenchRatio.Binary64

/-! ## From bits to numbers -/

/-- The size of a measurement, without its sign. -/
inductive Magnitude
  | notANumber
  | infinite
  /-- The number `m * 2 ^ q`. -/
  | finite (m : Nat) (q : Int)
  deriving DecidableEq, Repr

/-- Two to the 52, the weight of the leading bit of a coefficient. -/
def leadingBit : Nat := 0x10000000000000

/-- Two to the 63, the weight of the sign bit. -/
def signBit : Nat := 0x8000000000000000

example : leadingBit = Nat.pow 2 52 ∧ signBit = Nat.pow 2 63 := by decide

/-- Whether the sign bit is set. -/
def isNegative (x : Float) : Bool := signBit ≤ x.toBits.toNat

/-- The eleven bits of the exponent. -/
def exponentField (x : Float) : Nat := x.toBits.toNat / leadingBit % 2048

/-- The 52 bits of the fraction. -/
def fractionField (x : Float) : Nat := x.toBits.toNat % leadingBit

/-- What the bits below the sign stand for. The smallest exponent field has no leading bit of its
own and shares the scale of the next one; the largest holds the numbers that are not finite. -/
def magnitude (x : Float) : Magnitude :=
  if exponentField x = 2047 then
    if fractionField x = 0 then .infinite else .notANumber
  else if exponentField x = 0 then .finite (fractionField x) (-1074)
  else .finite (leadingBit + fractionField x) ((exponentField x : Int) - 1075)

/-- Neither infinite nor not a number. -/
def isFinite (x : Float) : Bool := exponentField x ≠ 2047

/-! ## From fractions to bits -/

/-- A fraction rounded to a whole number, a half going to the even one. -/
def roundHalfEven (num den : Nat) : Nat :=
  let k := num / den
  let r := num % den
  if 2 * r < den then k else if den < 2 * r then k + 1 else k + k % 2

/-- The largest `e` with `2 ^ e ≤ num / den`, for positive `num` and `den`. -/
def floorLog2 (num den : Nat) : Int :=
  let e : Int := num.log2 - den.log2
  if den * Nat.pow 2 e.toNat ≤ num * Nat.pow 2 (-e).toNat then e else e - 1

/-- The bits of positive infinity. -/
def infinityBits : Nat := 2047 * leadingBit

/-- The bits of the non-negative number nearest to `num / den`, a tie going to the even one.

Numbers of one scale `2 ^ q` have consecutive bits, and those of the next scale follow on them, so
the rounded multiple of `2 ^ q` is added to the place where its scale starts; a multiple that
rounds up to the next scale lands on that scale's first number. -/
def nearestBits (num den : Nat) : Nat :=
  if num = 0 then 0
  else
    let q := max (floorLog2 num den - 52) (-1074)
    let m := roundHalfEven (num * Nat.pow 2 (-q).toNat) (den * Nat.pow 2 q.toNat)
    min ((q + 1074).toNat * leadingBit + m) infinityBits

/-- The number with the given sign and the given bits below it. -/
def ofFields (negative : Bool) (bits : Nat) : Float :=
  Float.ofBits (UInt64.ofNat (if negative then signBit + bits else bits))

/-- The measurement nearest to `num / den`, with the given sign. -/
def nearest (negative : Bool) (num den : Nat) : Float :=
  ofFields negative (nearestBits num den)

end BenchRatio.Binary64
