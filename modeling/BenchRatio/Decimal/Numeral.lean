import BenchRatio.Decimal.Binary64
import BenchRatio.Digits

/-!
# Reading numerals

A numeral is an optional sign and then a word for a number that is not finite, in any letter case,
or digits with an optional point and an optional exponent. It stands for the measurement nearest to
the number written, a tie going to the even one.

* `Numeral.read`: the measurement a numeral stands for, or why the text is none.
* `Decimal.nearest`: the measurement nearest to a coefficient times a power of ten.
-/

namespace BenchRatio

/-! ## Decimal numbers -/

/-- The number `coefficient * 10 ^ exponent`. -/
structure Decimal where
  coefficient : Nat
  exponent : Int
  deriving DecidableEq, Repr

namespace Decimal

/-- The measurement nearest to a decimal number, with the given sign.

Two bounds keep the powers of ten small: a coefficient is at least one, so from the exponent 310 on
the number is beyond every finite measurement, and a coefficient is below `10 ^ (log2 / 3 + 1)`, so
a number under `10 ^ -330` is nearest to zero. -/
def nearest (negative : Bool) (d : Decimal) : Float :=
  if d.coefficient = 0 then Binary64.ofFields negative 0
  else if 310 ≤ d.exponent then Binary64.ofFields negative Binary64.infinityBits
  else if d.exponent + (d.coefficient.log2 / 3 + 1 : Nat) < -330 then Binary64.ofFields negative 0
  else
    Binary64.nearest negative (d.coefficient * Nat.pow 10 d.exponent.toNat)
      (Nat.pow 10 (-d.exponent).toNat)

end Decimal

/-! ## Numerals -/

namespace Numeral

/-- Why a text is not a numeral. -/
inductive Defect
  | empty
  | malformed
  deriving DecidableEq, Repr

/-- The defect in words. -/
def Defect.message : Defect → String
  | .empty => "cannot parse float from empty string"
  | .malformed => "invalid float literal"

/-- The size of a written exponent: its digits are read until they reach 65536, and none after
that changes it. -/
def exponentValue (ds : List Char) : Nat :=
  ds.foldl (fun n d => if n < 65536 then 10 * n + Digits.value d else n) 0

/-- An optional sign, `true` for a minus, and what follows it. -/
def sign : List Char → Bool × List Char
  | '-' :: cs => (true, cs)
  | '+' :: cs => (false, cs)
  | cs => (false, cs)

/-- The exponent part of a numeral: nothing at all, or a letter, an optional sign and digits. -/
def exponent? : List Char → Option Int
  | [] => some 0
  | e :: cs =>
    if e = 'e' ∨ e = 'E' then
      let (negative, ds) := sign cs
      if ds ≠ [] ∧ ds.all Char.isDigit then
        some (if negative then -(exponentValue ds : Int) else exponentValue ds)
      else none
    else none

/-- A numeral with digits and without a sign: digits, then a point and digits or neither, then an
exponent. There is a digit before the exponent. -/
def decimal? (cs : List Char) : Option Decimal :=
  let whole := cs.takeWhile Char.isDigit
  let afterWhole := cs.dropWhile Char.isDigit
  let (part, rest) :=
    match afterWhole with
    | '.' :: fs => (fs.takeWhile Char.isDigit, fs.dropWhile Char.isDigit)
    | _ => ([], afterWhole)
  if whole = [] ∧ part = [] then none
  else
    (exponent? rest).map fun e =>
      { coefficient := Digits.number 10 (whole ++ part), exponent := e - part.length }

/-- The words for numbers that are not finite. -/
inductive Word
  | infinity
  | notANumber

/-- A word for a number that is not finite, in any letter case. -/
def word? (cs : List Char) : Option Word :=
  match String.ofList (cs.map Char.toLower) with
  | "inf" | "infinity" => some .infinity
  | "nan" => some .notANumber
  | _ => none

/-- The measurement a list of characters stands for. -/
def readList (cs : List Char) : Except Defect Float :=
  if cs = [] then .error .empty
  else
    let (negative, body) := sign cs
    match word? body with
    | some .infinity => .ok (Binary64.ofFields negative Binary64.infinityBits)
    | some .notANumber => .ok (0.0 / 0.0)
    | none =>
      match decimal? body with
      | some d => .ok (d.nearest negative)
      | none => .error .malformed

/-- The measurement a numeral stands for, or why the text is none. -/
def read (s : String) : Except Defect Float := readList s.toList

end Numeral

end BenchRatio
