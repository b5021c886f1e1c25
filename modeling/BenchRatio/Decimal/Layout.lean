import BenchRatio.Decimal.Shortest

/-!
# How measurements are written

A measurement is written with its shortest digits. Where the point goes, when an exponent is
written and what the numbers that are not finite are called is the layout's choice. There are three
layouts: one for ratio cells and means, one for messages, and one for the report in JSON.

* `Layout.render`: a measurement in a layout.
* `Layout.cell`, `Layout.plain`, `Layout.json`: the three layouts.
-/

namespace BenchRatio.Decimal

/-- The choices of a way to write measurements. The decimal exponent of a number is that of its
first digit. -/
structure Layout where
  /-- Which of two equally near decimals is written. -/
  tie : Tie
  /-- Whether a number with this decimal exponent is written without an exponent. -/
  isPositional : Int → Bool
  /-- Whether a whole number without an exponent ends in `.0`. -/
  wholePoint : Bool
  /-- What stands between `e` and an exponent that is not negative. -/
  exponentPlus : List Char

/-- Digits with the point after the first `point` of them, zeros filling up on either side. -/
def positional (wholePoint : Bool) (digits : List Char) (point : Int) : List Char :=
  if point ≤ 0 then '0' :: '.' :: (List.replicate (-point).toNat '0' ++ digits)
  else if (digits.length : Int) ≤ point then
    digits ++ List.replicate (point.toNat - digits.length) '0' ++
      (if wholePoint then ['.', '0'] else [])
  else digits.take point.toNat ++ '.' :: digits.drop point.toNat

/-- One digit, a point and the others if there are more, and the exponent of the first digit. -/
def scientific (plus : List Char) (digits : List Char) (exponent : Int) : List Char :=
  let body :=
    match digits with
    | d :: e :: ds => d :: '.' :: e :: ds
    | ds => ds
  let sign := if exponent < 0 then ['-'] else plus
  body ++ 'e' :: (sign ++ Nat.toDigits 10 exponent.natAbs)

namespace Layout

/-- A positive decimal number in a layout. -/
def renderDecimal (l : Layout) (d : Decimal) : List Char :=
  let digits := Nat.toDigits 10 d.coefficient
  let point := d.exponent + digits.length
  if l.isPositional (point - 1) then positional l.wholePoint digits point
  else scientific l.exponentPlus digits (point - 1)

/-- A measurement's size in a layout. -/
def renderMagnitude (l : Layout) : Binary64.Magnitude → List Char
  | .notANumber => ['N', 'a', 'N']
  | .infinite => ['i', 'n', 'f']
  | .finite 0 _ => if l.wholePoint then ['0', '.', '0'] else ['0']
  | .finite m q => l.renderDecimal (shortest l.tie m q)

/-- A measurement in a layout, as characters. A minus stands before every number with a negative
sign, also before zero; what is not a number has no sign. -/
def renderList (l : Layout) (x : Float) : List Char :=
  match Binary64.magnitude x with
  | .notANumber => l.renderMagnitude .notANumber
  | size => if Binary64.isNegative x then '-' :: l.renderMagnitude size else l.renderMagnitude size

/-- A measurement in a layout. -/
def render (l : Layout) (x : Float) : String := String.ofList (l.renderList x)

/-- Ratio cells and means: a whole number keeps its point, and an exponent is written below
`10 ^ -4` and from `10 ^ 16` on. -/
def cell : Layout where
  tie := .up
  isPositional e := -4 ≤ e ∧ e < 16
  wholePoint := true
  exponentPlus := []

/-- Messages: never an exponent, and no point in a whole number. -/
def plain : Layout where
  tie := .up
  isPositional _ := true
  wholePoint := false
  exponentPlus := []

/-- Messages about numbers in a roster file: never an exponent, and a point in every number. -/
def pointed : Layout where
  tie := .up
  isPositional _ := true
  wholePoint := true
  exponentPlus := []

/-- The report in JSON: an exponent, with its sign, is written below `10 ^ -5` and from `10 ^ 16`
on; of two equally near decimals the even one is written. -/
def json : Layout where
  tie := .even
  isPositional e := -5 ≤ e ∧ e < 16
  wholePoint := true
  exponentPlus := ['+']

end Layout

end BenchRatio.Decimal
