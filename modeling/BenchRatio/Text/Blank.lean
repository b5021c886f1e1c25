/-!
# White space around a text

* `Blank.isBlank`: the characters that have the Unicode property White_Space.
* `Blank.trim`: a text without the blanks at its two ends.
-/

namespace BenchRatio.Blank

/-- The code points with the property White_Space, as inclusive ranges in ascending order. -/
def ranges : List (Nat × Nat) :=
  [(0x09, 0x0D), (0x20, 0x20), (0x85, 0x85), (0xA0, 0xA0), (0x1680, 0x1680), (0x2000, 0x200A),
   (0x2028, 0x2029), (0x202F, 0x202F), (0x205F, 0x205F), (0x3000, 0x3000)]

/-- Whether a character is white space. -/
def isBlank (c : Char) : Bool := ranges.any fun r => r.1 ≤ c.toNat && c.toNat ≤ r.2

/-- A list of characters without the blanks at its two ends. -/
def trimList (cs : List Char) : List Char :=
  ((cs.dropWhile isBlank).reverse.dropWhile isBlank).reverse

/-- A text without the blanks at its two ends. -/
def trim (s : String) : String := String.ofList (trimList s.toList)

/-- There are 25 blanks. -/
example : (ranges.map fun r => r.2 - r.1 + 1).sum = 25 := by decide

/-- No range touches the one before it. -/
example : ranges.Pairwise fun a b => a.2 + 1 < b.1 := by decide

end BenchRatio.Blank
