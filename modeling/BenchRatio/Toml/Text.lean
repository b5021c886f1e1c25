import BenchRatio.Toml.Lexeme

/-!
# Strings in TOML

There are four kinds of strings: between double quotes, with escapes, or between apostrophes,
without; and each also between three marks, where lines may break. A line break counts as a line
feed, and the one right after the three opening marks does not count at all.

* `text?`: a string of any kind.
* `quotedLine?`, `literalLine?`: the two kinds that stay on a line.
-/

namespace BenchRatio.Toml

/-- A character that stands for itself between double quotes. -/
def isQuotedChar (c : Char) : Bool := isCommentChar c ∧ c ≠ '"' ∧ c ≠ '\\'

/-- A character that may stand between apostrophes. -/
def isLiteralChar (c : Char) : Bool := isCommentChar c ∧ c ≠ '\''

/-- The character behind a backslash and a letter. -/
def shortEscape? : Char → Option Char
  | 'b' => some '\x08'
  | 'f' => some '\x0c'
  | 'n' => some '\n'
  | 'r' => some '\r'
  | 't' => some '\t'
  | '\\' => some '\\'
  | '"' => some '"'
  | _ => none

/-- The character whose code point hexadecimal digits spell. -/
def codePoint? (ds : List Char) : Option Char :=
  let n := Digits.number 16 ds
  if ds.all isHexDigit ∧ n.isValidChar then some (Char.ofNat n) else none

/-- The rest of a string between double quotes, up to its closing quote. -/
def quotedRest? : Reader (List Char)
  | '"' :: cs => some ([], cs)
  | '\\' :: 'u' :: a :: b :: c :: d :: cs => do
    let x ← codePoint? [a, b, c, d]
    let (xs, rest) ← quotedRest? cs
    some (x :: xs, rest)
  | '\\' :: 'U' :: a :: b :: c :: d :: e :: f :: g :: h :: cs => do
    let x ← codePoint? [a, b, c, d, e, f, g, h]
    let (xs, rest) ← quotedRest? cs
    some (x :: xs, rest)
  | '\\' :: e :: cs => do
    let x ← shortEscape? e
    let (xs, rest) ← quotedRest? cs
    some (x :: xs, rest)
  | c :: cs =>
    if isQuotedChar c then (quotedRest? cs).map fun (xs, rest) => (c :: xs, rest) else none
  | [] => none

/-- The rest of a string between apostrophes, up to the closing one. -/
def literalRest? : Reader (List Char)
  | '\'' :: cs => some ([], cs)
  | c :: cs =>
    if isLiteralChar c then (literalRest? cs).map fun (xs, rest) => (c :: xs, rest) else none
  | [] => none

/-- Whether only blanks stand before the end of the line. -/
def isLineRest (cs : List Char) : Bool := (lineBreak? (skipBlanks cs)).isSome

/-- The rest of a string between three double quotes. One or two more quotes may stand before the
closing ones. A backslash at the end of a line drops the line break and all blanks and line breaks
after it; while they are dropped, the first argument is true. -/
def quotedLinesRest? : Bool → Reader (List Char)
  | _, '"' :: '"' :: '"' :: '"' :: '"' :: cs => some (['"', '"'], cs)
  | _, '"' :: '"' :: '"' :: '"' :: cs => some (['"'], cs)
  | _, '"' :: '"' :: '"' :: cs => some ([], cs)
  | _, '\\' :: 'u' :: a :: b :: c :: d :: cs => do
    let x ← codePoint? [a, b, c, d]
    let (xs, rest) ← quotedLinesRest? false cs
    some (x :: xs, rest)
  | _, '\\' :: 'U' :: a :: b :: c :: d :: e :: f :: g :: h :: cs => do
    let x ← codePoint? [a, b, c, d, e, f, g, h]
    let (xs, rest) ← quotedLinesRest? false cs
    some (x :: xs, rest)
  | _, '\\' :: e :: cs =>
    if isLineRest (e :: cs) then quotedLinesRest? true (e :: cs)
    else do
      let x ← shortEscape? e
      let (xs, rest) ← quotedLinesRest? false cs
      some (x :: xs, rest)
  | dropping, '\r' :: '\n' :: cs =>
    if dropping then quotedLinesRest? true cs
    else (quotedLinesRest? false cs).map fun (xs, rest) => ('\n' :: xs, rest)
  | dropping, c :: cs =>
    if dropping ∧ (isBlank c ∨ c = '\n') then quotedLinesRest? true cs
    else if c = '"' ∨ c = '\n' ∨ isQuotedChar c then
      (quotedLinesRest? false cs).map fun (xs, rest) => (c :: xs, rest)
    else none
  | _, [] => none

/-- The rest of a string between three apostrophes. One or two more apostrophes may stand before the
closing ones. -/
def literalLinesRest? : Reader (List Char)
  | '\'' :: '\'' :: '\'' :: '\'' :: '\'' :: cs => some (['\'', '\''], cs)
  | '\'' :: '\'' :: '\'' :: '\'' :: cs => some (['\''], cs)
  | '\'' :: '\'' :: '\'' :: cs => some ([], cs)
  | '\r' :: '\n' :: cs => (literalLinesRest? cs).map fun (xs, rest) => ('\n' :: xs, rest)
  | c :: cs =>
    if c = '\n' ∨ c = '\'' ∨ isLiteralChar c then
      (literalLinesRest? cs).map fun (xs, rest) => (c :: xs, rest)
    else none
  | [] => none

/-- What follows the line break that may stand right after opening marks. -/
def skipFirstBreak (cs : List Char) : List Char := (lineBreak? cs).getD cs

/-- Makes a text of the characters that a reader gives. -/
def asText (r : Option (List Char × List Char)) : Option (String × List Char) :=
  r.map fun (xs, rest) => (String.ofList xs, rest)

/-- A string between double quotes, on one line. -/
def quotedLine? : Reader String
  | '"' :: cs => asText (quotedRest? cs)
  | _ => none

/-- A string between apostrophes, on one line. -/
def literalLine? : Reader String
  | '\'' :: cs => asText (literalRest? cs)
  | _ => none

/-- A string of any kind. -/
def text? : Reader String
  | '"' :: '"' :: '"' :: cs => asText (quotedLinesRest? false (skipFirstBreak cs))
  | '\'' :: '\'' :: '\'' :: cs => asText (literalLinesRest? (skipFirstBreak cs))
  | '\'' :: cs => literalLine? ('\'' :: cs)
  | cs => quotedLine? cs

end BenchRatio.Toml
