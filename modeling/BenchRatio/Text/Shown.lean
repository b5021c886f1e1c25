import BenchRatio.Text.Hidden

/-!
# Texts in messages

A message shows a text between double quotes. What would be hard to see there is escaped.

* `Text.shownChar`: a character between double quotes.
* `Text.shown`: a text between double quotes.
-/

namespace BenchRatio.Text

/-- A character between double quotes. -/
def shownChar (c : Char) : List Char :=
  if c = '"' then ['\\', '"']
  else if c = '\\' then ['\\', '\\']
  else if c = '\n' then ['\\', 'n']
  else if c = '\r' then ['\\', 'r']
  else if c = '\t' then ['\\', 't']
  else if c.toNat = 0 then ['\\', '0']
  else if isHidden c then '\\' :: 'u' :: '\x7b' :: (Nat.toDigits 16 c.toNat ++ ['\x7d'])
  else [c]

/-- A text between double quotes. -/
def shown (s : String) : String := String.ofList ('"' :: (s.toList.flatMap shownChar ++ ['"']))

example : shown "a\"\x00é" = "\"a\\\"\\0é\"" := by decide +kernel

end BenchRatio.Text
