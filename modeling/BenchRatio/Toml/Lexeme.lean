import BenchRatio.Digits
import BenchRatio.Toml.Span

/-!
# The smallest parts of TOML

A reader takes a list of characters and gives what it has read with what follows, or nothing.

* `Reader`: the type of readers.
* `located`: what a reader has read with its place in the document.
* `skipBlanks`, `skipEmptyLines`, `lineEnd?`: blanks, line breaks and comments.
* `digits?`: digits with single underscores between them.
* `length_dropWhile_le`: what is left is no longer than what was there.
-/

namespace BenchRatio.Toml

/-- Reads the start of some characters. -/
abbrev Reader (α : Type) := List Char → Option (α × List Char)

/-- What a reader has read, with its stretch. -/
def located {α : Type} (read : Reader α) : Reader (Located α) := fun cs =>
  (read cs).map fun (a, rest) => (⟨⟨cs, rest⟩, a⟩, rest)

theorem length_dropWhile_le {α : Type} (p : α → Bool) (cs : List α) :
    (cs.dropWhile p).length ≤ cs.length :=
  (List.dropWhile_sublist p).length_le

/-! ## Characters -/

/-- A blank in a line: a space or a tab. -/
def isBlank (c : Char) : Bool := c = ' ' ∨ c = '\t'

/-- A character that a comment may hold: no control character but the tab. -/
def isCommentChar (c : Char) : Bool := c = '\t' ∨ (' ' ≤ c ∧ c ≠ '\x7f')

/-- A character of a key without quotes. -/
def isKeyChar (c : Char) : Bool := c.isAlphanum ∨ c = '-' ∨ c = '_'

/-- A hexadecimal digit. -/
def isHexDigit (c : Char) : Bool :=
  c.isDigit ∨ ('a' ≤ c ∧ c ≤ 'f') ∨ ('A' ≤ c ∧ c ≤ 'F')

/-! ## Blanks and lines -/

/-- What follows the blanks. -/
def skipBlanks (cs : List Char) : List Char := cs.dropWhile isBlank

/-- A line break: a line feed, also after a carriage return. -/
def lineBreak? : List Char → Option (List Char)
  | '\n' :: cs => some cs
  | '\r' :: '\n' :: cs => some cs
  | _ => none

/-- A line break or the end. -/
def lineEnd? : List Char → Option (List Char)
  | [] => some []
  | cs => lineBreak? cs

/-- What follows a comment, if there is one. -/
def skipComment : List Char → List Char
  | '#' :: cs => cs.dropWhile isCommentChar
  | cs => cs

/-- The rest of a line after a key and its value or after a header. -/
def finishLine? (cs : List Char) : Option (List Char) := lineEnd? (skipComment (skipBlanks cs))

theorem length_lineBreak?_lt {cs rest : List Char} (h : lineBreak? cs = some rest) :
    rest.length < cs.length := by
  unfold lineBreak? at h
  split at h
  · cases h; exact Nat.lt_succ_self _
  · cases h; exact Nat.lt_succ_of_lt (Nat.lt_succ_self _)
  · cases h

theorem length_skipComment_le (cs : List Char) : (skipComment cs).length ≤ cs.length := by
  unfold skipComment
  split
  · exact Nat.le_succ_of_le (length_dropWhile_le _ _)
  · exact Nat.le_refl _

/-- What follows blanks, line breaks and whole comments. -/
def skipEmptyLines (cs : List Char) : List Char :=
  match _h : lineBreak? (skipComment (skipBlanks cs)) with
  | some rest => skipEmptyLines rest
  | none => skipBlanks cs
termination_by cs.length
decreasing_by
  have h1 := length_lineBreak?_lt _h
  have h2 := length_skipComment_le (skipBlanks cs)
  have h3 : (skipBlanks cs).length ≤ cs.length := length_dropWhile_le _ _
  omega

/-! ## Digits -/

/-- More digits after a digit. An underscore stands between two digits only. -/
def moreDigits? (isDigit : Char → Bool) : Reader (List Char)
  | [] => some ([], [])
  | ['_'] => none
  | '_' :: d :: cs =>
    if isDigit d then (moreDigits? isDigit cs).map fun (ds, rest) => (d :: ds, rest) else none
  | d :: cs =>
    if isDigit d then (moreDigits? isDigit cs).map fun (ds, rest) => (d :: ds, rest)
    else some ([], d :: cs)

/-- Digits, without the underscores between them. -/
def digits? (isDigit : Char → Bool) : Reader (List Char)
  | [] => none
  | d :: cs =>
    if isDigit d then (moreDigits? isDigit cs).map fun (ds, rest) => (d :: ds, rest) else none

/-- Exactly so many decimal digits, as a number. -/
def exactDigits? (count : Nat) (cs : List Char) : Option (Nat × List Char) :=
  let ds := cs.take count
  if ds.length = count ∧ ds.all Char.isDigit then some (Digits.number 10 ds, cs.drop count)
  else none

end BenchRatio.Toml
