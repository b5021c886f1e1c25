import BenchRatio.Text.Utf8

/-!
# Control sequences of terminals

A terminal shows no control characters, and an escape character starts a sequence that it obeys
instead of showing it. A log that does not go to a terminal is written without both.

* `Sequence`, `Sequence.next`: where a text stands in a sequence, before and after a character.
* `Text.withoutControls`: a text without control characters and sequences.
-/

namespace BenchRatio.Text

/-- A control character of ASCII. -/
def isControl (c : Char) : Bool := c.toNat < 0x20 ∨ c.toNat = 0x7F

/-- A control character that moves on in a line or to another one and is shown as it is. -/
def isBlankControl (c : Char) : Bool := c = '\t' ∨ c = '\n' ∨ c = '\x0c' ∨ c = '\r'

/-! ## Sequences -/

/-- Where a text stands in a sequence. -/
inductive Sequence
  /-- Outside every sequence. -/
  | outside
  /-- After an escape character. -/
  | escape
  /-- After an escape character and more that does not end the sequence. -/
  | longEscape
  /-- In a sequence with parameters. -/
  | control
  /-- At the start of a sequence for a device. -/
  | device
  /-- In the parameters of a sequence for a device. -/
  | deviceParameters
  /-- After the parameters of a sequence for a device. -/
  | deviceIntermediate
  /-- In a text inside a sequence, which only a terminator ends. -/
  | string
  /-- In a command to the system, which a bell ends. -/
  | command
  deriving DecidableEq, Repr

/-- A character that may stand before the last one of a sequence. -/
def isIntermediate (c : Char) : Bool := ' ' ≤ c ∧ c ≤ '/'

/-- A character that may end a sequence without parameters. -/
def isLast (c : Char) : Bool := '0' ≤ c ∧ c ≤ '~'

/-- Whether a character has the byte that terminates a text inside a sequence. Sequences are a
matter of bytes, so the byte counts also as a part of a character. -/
def hasTerminator (c : Char) : Bool := 0x80 ≤ c.toNat ∧ 0x9C ∈ Utf8.encode (String.singleton c)

namespace Sequence

/-- The place after an escape character and one more. -/
def afterEscape (c : Char) : Sequence :=
  if isIntermediate c then .longEscape
  else if c = '[' then .control
  else if c = ']' then .command
  else if c = 'P' then .device
  else if c = 'X' ∨ c = '^' ∨ c = '_' then .string
  else if isLast c then .outside
  else .escape

/-- The place after a character before or in the parameters of a sequence for a device. -/
def afterParameter (s : Sequence) (c : Char) : Sequence :=
  if isIntermediate c then .deviceIntermediate
  else if c.isDigit ∨ c = ';' then .deviceParameters
  else if isLast c then .string
  else s

/-- The place after one more character. An escape character starts a new sequence everywhere, and
two control characters end every one. -/
def next (s : Sequence) (c : Char) : Sequence :=
  if c = '\x1b' then .escape
  else if c = '\x18' ∨ c = '\x1a' then .outside
  else
    match s with
    | .outside => .outside
    | .escape => afterEscape c
    | .longEscape => if isLast c then .outside else .longEscape
    | .control => if '@' ≤ c ∧ c ≤ '~' then .outside else .control
    | .device => if '<' ≤ c ∧ c ≤ '?' then .deviceParameters else afterParameter .device c
    | .deviceParameters => afterParameter .deviceParameters c
    | .deviceIntermediate => if isLast c then .string else .deviceIntermediate
    | .string => if hasTerminator c then .outside else .string
    | .command => if c = '\x07' then .outside else .command

/-- Whether blanks are shown, also inside the sequence. -/
def showsBlanks : Sequence → Bool
  | .outside | .escape | .longEscape | .control => true
  | _ => false

end Sequence

/-! ## Texts -/

/-- Characters without control characters and sequences, from a place on. A blank that is shown
inside a sequence holds it up: what follows is shown until the next control character, and then the
sequence goes on, unless a character beyond ASCII has been shown. -/
def withoutControlsFrom (s : Sequence) (heldUp : Bool) : List Char → List Char
  | [] => []
  | c :: cs =>
    if isControl c then
      if isBlankControl c ∧ s.showsBlanks then c :: withoutControlsFrom s true cs
      else withoutControlsFrom (s.next c) false cs
    else if heldUp ∨ s = .outside then
      c :: withoutControlsFrom (if c.toNat < 0x80 then s else .outside) heldUp cs
    else withoutControlsFrom (s.next c) false cs

/-- A text without control characters and sequences. -/
def withoutControls (s : String) : String :=
  String.ofList (withoutControlsFrom .outside false s.toList)

example : withoutControls "\x1b[31mred\x1b[0m\x07" = "red" := by decide +kernel
example : withoutControls "a\x1b]0;t\x07b" = "ab" := by decide +kernel

end BenchRatio.Text
