import BenchRatio.Decimal.Layout

/-!
# JSON text

* `Json.render`: a value on one line without blanks.
* `Json.escape`: a character inside a string.
-/

namespace BenchRatio

/-- The values of a report in JSON. -/
inductive Json
  | count (n : Nat)
  /-- A number; one that is not finite is written as `null`. -/
  | number (x : Float)
  | text (s : String)
  | array (items : List Json)
  | object (members : List (String × Json))

namespace Json

/-- A hexadecimal digit. -/
def hexDigit (n : Nat) : Char := (Nat.toDigits 16 n).headD '0'

/-- A character inside a string. The quote, the backslash and the control characters are escaped;
five of these have a short form. -/
def escape (c : Char) : List Char :=
  if c = '"' then ['\\', '"']
  else if c = '\\' then ['\\', '\\']
  else if c.toNat = 0x08 then ['\\', 'b']
  else if c.toNat = 0x09 then ['\\', 't']
  else if c.toNat = 0x0A then ['\\', 'n']
  else if c.toNat = 0x0C then ['\\', 'f']
  else if c.toNat = 0x0D then ['\\', 'r']
  else if c.toNat < 0x20 then
    ['\\', 'u', '0', '0', hexDigit (c.toNat / 16), hexDigit (c.toNat % 16)]
  else [c]

/-- A text as a string. -/
def quote (s : String) : List Char := '"' :: (s.toList.flatMap escape ++ ['"'])

/-- A number, if JSON has a spelling for it. -/
def numeral (x : Float) : List Char :=
  if Binary64.isFinite x then Decimal.Layout.json.renderList x else ['n', 'u', 'l', 'l']

mutual

/-- A value as characters. -/
def renderList : Json → List Char
  | .count n => Nat.toDigits 10 n
  | .number x => numeral x
  | .text s => quote s
  | .array [] => ['[', ']']
  | .array (item :: more) => '[' :: (renderList item ++ renderItems more)
  | .object [] => ['\x7b', '\x7d']
  | .object ((key, value) :: more) =>
    '\x7b' :: (quote key ++ ':' :: (renderList value ++ renderMembers more))

/-- The items of an array after the first one, with the closing bracket. -/
def renderItems : List Json → List Char
  | [] => [']']
  | item :: more => ',' :: (renderList item ++ renderItems more)

/-- The members of an object after the first one, with the closing brace. -/
def renderMembers : List (String × Json) → List Char
  | [] => ['\x7d']
  | (key, value) :: more =>
    ',' :: (quote key ++ ':' :: (renderList value ++ renderMembers more))

end

/-- A value on one line. -/
def render (j : Json) : String := String.ofList j.renderList

end Json

end BenchRatio
