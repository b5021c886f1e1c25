import BenchRatio.Digits
import BenchRatio.Json

/-!
# Reading JSON

What a program that is given a JSON text makes of it. All of JSON is read, with blanks and escapes
that are never written here; a numeral is kept as it is spelled, since what number it stands for is
up to the program.

* `Json.Value`: a value that has been read.
* `Json.value?`: reads a value, with the depth to which arrays and objects may be nested.
* `Json.read?`: the value that a whole text spells.
-/

namespace BenchRatio.Json

/-- Reads the start of some characters. -/
abbrev Reader (α : Type) := List Char → Option (α × List Char)

/-- A value that has been read. -/
inductive Value
  | null
  | truth (b : Bool)
  /-- A number as it is spelled. -/
  | numeral (spelling : List Char)
  | text (s : String)
  | array (items : List Value)
  /-- The members in their order; a name may come twice. -/
  | object (members : List (String × Value))

/-- A control character, which does not stand in a string as it is. -/
def isControl (c : Char) : Bool := c.toNat < 0x20

/-- A blank: a space, a tab, a line feed or a carriage return. -/
def isBlank (c : Char) : Bool := c = ' ' ∨ c = '\t' ∨ c = '\n' ∨ c = '\r'

/-- What follows the blanks. -/
def skipBlanks (cs : List Char) : List Char := cs.dropWhile isBlank

/-! ## Numbers -/

/-- Decimal digits, of which there is at least one. -/
def digits? : Reader (List Char) := fun cs =>
  match cs.takeWhile Char.isDigit with
  | [] => none
  | d :: ds => some (d :: ds, cs.dropWhile Char.isDigit)

/-- The digits before the point. They start with a zero only if that is the only one. -/
def whole? : Reader (List Char)
  | '0' :: cs => some (['0'], cs)
  | cs => digits? cs

/-- A point and digits, or nothing. -/
def fraction? : Reader (List Char)
  | '.' :: cs => (digits? cs).map fun (ds, rest) => ('.' :: ds, rest)
  | cs => some ([], cs)

/-- The sign of an exponent, or nothing. -/
def sign : List Char → List Char × List Char
  | '-' :: cs => (['-'], cs)
  | '+' :: cs => (['+'], cs)
  | cs => ([], cs)

/-- A letter, a sign or none and digits, or nothing. -/
def exponent? : Reader (List Char)
  | c :: cs =>
    if c = 'e' ∨ c = 'E' then
      let (s, cs) := sign cs
      (digits? cs).map fun (ds, rest) => (c :: (s ++ ds), rest)
    else some ([], c :: cs)
  | [] => some ([], [])

/-- A number without a sign. -/
def unsigned? : Reader (List Char) := fun cs => do
  let (whole, cs) ← whole? cs
  let (fraction, cs) ← fraction? cs
  let (exponent, cs) ← exponent? cs
  some (whole ++ fraction ++ exponent, cs)

/-- A number. -/
def number? : Reader (List Char)
  | '-' :: cs => (unsigned? cs).map fun (n, rest) => ('-' :: n, rest)
  | cs => unsigned? cs

/-! ## Strings -/

/-- A hexadecimal digit, in either letter case. -/
def isHexDigit (c : Char) : Bool :=
  c.isDigit ∨ ('a' ≤ c ∧ c ≤ 'f') ∨ ('A' ≤ c ∧ c ≤ 'F')

/-- Four hexadecimal digits as a number. -/
def unit? : Reader Nat
  | a :: b :: c :: d :: cs =>
    if [a, b, c, d].all isHexDigit then some (Digits.number 16 [a, b, c, d], cs) else none
  | _ => none

/-- A character after a backslash and a `u`. One beyond the first 65536 has two units, the second
after another backslash and `u`; neither half stands alone. -/
def codePoint? : Reader Char := fun cs => do
  let (high, rest) ← unit? cs
  if high.isValidChar then some (Char.ofNat high, rest)
  else
    match rest with
    | '\\' :: 'u' :: rest => do
      let (low, rest) ← unit? rest
      if high < 0xDC00 ∧ 0xDC00 ≤ low ∧ low < 0xE000 then
        some (Char.ofNat (0x10000 + (high - 0xD800) * 0x400 + (low - 0xDC00)), rest)
      else none
    | _ => none

/-- The character for a letter or sign after a backslash. -/
def shortEscape? : Char → Option Char
  | '"' => some '"'
  | '\\' => some '\\'
  | '/' => some '/'
  | 'b' => some '\x08'
  | 'f' => some '\x0c'
  | 'n' => some '\n'
  | 'r' => some '\r'
  | 't' => some '\t'
  | _ => none

/-- A character of a string. -/
def character? : Reader Char
  | '\\' :: 'u' :: cs => codePoint? cs
  | '\\' :: c :: cs => (shortEscape? c).map fun x => (x, cs)
  | c :: cs => if c = '\\' ∨ isControl c then none else some (c, cs)
  | [] => none

/-- The characters of a string up to its closing quote, of which the first argument bounds the
number. -/
def characters? : Nat → Reader (List Char)
  | _, '"' :: cs => some ([], cs)
  | bound + 1, cs => do
    let (c, cs) ← character? cs
    let (more, cs) ← characters? bound cs
    some (c :: more, cs)
  | 0, _ => none

/-- A string. -/
def string? (bound : Nat) : Reader String
  | '"' :: cs => (characters? bound cs).map fun (s, rest) => (String.ofList s, rest)
  | _ => none

example : string? 3 "\"\\u00E9\\uD83D\\uDE00\"".toList = some ("é😀", []) := by decide +kernel
example : string? 3 "\"\\uD83D\"".toList = none := by decide +kernel

/-! ## Values -/

/-- More items after an item, each after a comma, up to the closing mark. -/
def moreItems? {α : Type} (item : Reader α) (close : Char) : Nat → Reader (List α)
  | bound + 1, cs =>
    match skipBlanks cs with
    | c :: cs =>
      if c = close then some ([], cs)
      else if c = ',' then do
        let (a, cs) ← item cs
        let (more, cs) ← moreItems? item close bound cs
        some (a :: more, cs)
      else none
    | [] => none
  | 0, _ => none

/-- Items with commas between them, or none at all, up to the closing mark. The number bounds that
of the items. -/
def items? {α : Type} (item : Reader α) (close : Char) (bound : Nat) : Reader (List α) := fun cs =>
  match skipBlanks cs with
  | c :: rest =>
    if c = close then some ([], rest)
    else do
      let (a, cs) ← item (c :: rest)
      let (more, cs) ← moreItems? item close bound cs
      some (a :: more, cs)
  | [] => none

/-- A member of an object, given how its value is read. -/
def member? (value : Reader Value) (bound : Nat) : Reader (String × Value) := fun cs => do
  let (name, cs) ← string? bound (skipBlanks cs)
  match skipBlanks cs with
  | ':' :: cs => (value cs).map fun (v, rest) => ((name, v), rest)
  | _ => none

/-- One of the three words. -/
def word? : Reader Value
  | 'n' :: 'u' :: 'l' :: 'l' :: cs => some (.null, cs)
  | 't' :: 'r' :: 'u' :: 'e' :: cs => some (.truth true, cs)
  | 'f' :: 'a' :: 'l' :: 's' :: 'e' :: cs => some (.truth false, cs)
  | _ => none

/-- A value, nested at most to the given depth. No string, array or object in it has more parts than
the first argument says. -/
def value? (bound : Nat) : Nat → Reader Value
  | 0, _ => none
  | depth + 1, cs =>
    match skipBlanks cs with
    | '"' :: cs => (string? bound ('"' :: cs)).map fun (s, rest) => (.text s, rest)
    | '[' :: cs =>
      (items? (value? bound depth) ']' bound cs).map fun (vs, rest) => (.array vs, rest)
    | '\x7b' :: cs =>
      (items? (member? (value? bound depth) bound) '\x7d' bound cs).map fun (ms, rest) =>
        (.object ms, rest)
    | cs => (word? cs).orElse fun _ => (number? cs).map fun (n, rest) => (.numeral n, rest)

/-- The value that a whole text spells. Whatever it holds or nests takes up a character, so the
length of the text bounds it. -/
def read? (cs : List Char) : Option Value := do
  let (v, rest) ← value? (cs.length + 1) (cs.length + 1) cs
  if skipBlanks rest = [] then some v else none

end BenchRatio.Json
