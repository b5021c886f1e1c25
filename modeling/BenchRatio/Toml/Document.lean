import BenchRatio.Toml.Defect
import BenchRatio.Toml.Number
import BenchRatio.Toml.Text

/-!
# TOML documents

* `value`: a value, with the depth to which arrays and inline tables may still be nested.
* `Draft`: a document of which some lines have been read.
* `parse`: the entries of a whole document, or why it cannot be read.
-/

namespace BenchRatio.Toml

/-- One more than the depth to which values may be nested and the number of parts a key may have. -/
def nestingLimit : Nat := 80

/-! ## Keys -/

/-- One part of a key: in quotes, or of letters, digits, dashes and underscores. -/
def keyPart? : Reader String
  | '"' :: cs => quotedLine? ('"' :: cs)
  | '\'' :: cs => literalLine? ('\'' :: cs)
  | cs =>
    let name := cs.takeWhile isKeyChar
    if name = [] then none else some (String.ofList name, cs.dropWhile isKeyChar)

/-- More parts of a key after a part, each after a dot; blanks may stand around each part. No more
parts are read than the first argument says. -/
def moreParts? : Nat → Reader (List Key)
  | bound + 1, '.' :: cs => do
    let (part, rest) ← located keyPart? (skipBlanks cs)
    let (parts, rest) ← moreParts? bound (skipBlanks rest)
    some (part :: parts, rest)
  | _, cs => some ([], cs)

/-- A key: the parts before the last one, and the last one. A key with too many parts has the given
defect. -/
def dottedKey (tooLong : Defect) : Part (List Key × Key) := fun cs => do
  let (first, rest) ← require (located keyPart? (skipBlanks cs))
  let (more, rest) ← require (moreParts? (nestingLimit - 1) (skipBlanks rest))
  if nestingLimit ≤ more.length + 1 then .error tooLong
  else
    let parts := first :: more
    .ok ((parts.dropLast, parts.getLast (List.cons_ne_nil first more)), rest)

/-! ## Values -/

/-- A part with the stretch where it stands. -/
def placed {α : Type} (part : Part α) : Part (Located α) := fun cs =>
  (part cs).map fun (a, rest) => (⟨⟨cs, rest⟩, a⟩, rest)

/-- An array after its opening bracket, given how its items are read and how many there may be. -/
def list (item : Part Value) (bound : Nat) : Part Value := fun cs => do
  let around : Part (Located Value) := fun cs =>
    (placed item (skipEmptyLines cs)).map fun (v, rest) => (v, skipEmptyLines rest)
  let (items, rest) ← separated around bound cs
  let rest :=
    match items, rest with
    | _ :: _, ',' :: rest => rest
    | _, rest => rest
  match skipEmptyLines rest with
  | ']' :: rest => .ok (.list items, rest)
  | _ => .error .malformed

/-- A key and its value in an inline table, given how values are read. -/
def inlinePair (item : Part Value) : Part ((List Key × Key) × Located Value) := fun cs => do
  let (key, rest) ← dottedKey .malformed cs
  match rest with
  | '=' :: rest =>
    (placed item (skipBlanks rest)).map fun (v, rest) => ((key, v), skipBlanks rest)
  | _ => .error .malformed

/-- A table after its opening brace, given how values are read and how many there may be. -/
def inlineTable (item : Part Value) (bound : Nat) : Part Value := fun cs => do
  let (pairs, rest) ← separated (inlinePair item) bound cs
  match skipBlanks rest with
  | '\x7d' :: rest => do
    let entries ← require (pairs.foldlM (fun es p => Entries.insertDotted es p.1.1 p.1.2 p.2) [])
    .ok (.table .inline entries, rest)
  | _ => .error .malformed

/-- A value that holds no other one. -/
def scalar? : Reader Value
  | 't' :: 'r' :: 'u' :: 'e' :: cs => some (.truth true, cs)
  | 'f' :: 'a' :: 'l' :: 's' :: 'e' :: cs => some (.truth false, cs)
  | c :: cs =>
    if c = '"' ∨ c = '\'' then (text? (c :: cs)).map fun (s, rest) => (.text s, rest)
    else number? (c :: cs)
  | [] => none

/-- A value, nested at most to the given depth, that holds no more items in one array or table than
the first argument says. -/
def value (bound : Nat) : Nat → Part Value
  | depth + 1, '[' :: cs => list (value bound depth) bound cs
  | depth + 1, '\x7b' :: cs => inlineTable (value bound depth) bound cs
  | 0, '[' :: cs => .error (.tooDeep (.first ('[' :: cs)))
  | 0, '\x7b' :: cs => .error (.tooDeep (.first ('\x7b' :: cs)))
  | _, cs => require (scalar? cs)

/-! ## Lines -/

/-- The table that keys are stored in. -/
inductive Opened
  /-- The document itself. -/
  | top
  /-- The table of a header. -/
  | table (path : List Key) (key : Key)
  /-- An element of the array of a header. -/
  | element (path : List Key) (key : Key)

/-- A document of which some lines have been read: the closed tables, and the open one. -/
structure Draft where
  closed : Entries
  opened : Opened
  /-- The entries of the open table. It reaches from its header to the last value stored in it. -/
  current : Located Entries

namespace Draft

/-- A document without lines, given its characters. -/
def empty (document : List Char) : Draft := ⟨[], .top, ⟨⟨document, document⟩, []⟩⟩

/-- Closes the open table. -/
def close? (d : Draft) : Option Entries :=
  match d.opened with
  | .top => some d.current.value
  | .table path key => d.closed.closeTable path key d.current
  | .element path key => d.closed.addElement path key d.current

/-- Stores a key in the open table. -/
def store? (d : Draft) (path : List Key) (key : Key) (v : Located Value) : Option Draft :=
  (d.current.value.insertDotted path key v).map fun es =>
    { d with current := ⟨d.current.span.through v.span, es⟩ }

/-- Opens the table of a header. -/
def openTable? (d : Draft) (header : Span) (path : List Key) (key : Key) : Option Draft := do
  let closed ← d.close?
  let (taken, closed) ← closed.openTable path key
  some ⟨closed, .table path key, ⟨header, taken⟩⟩

/-- Opens a new element of the array of a header. -/
def openElement? (d : Draft) (header : Span) (path : List Key) (key : Key) : Option Draft := do
  let closed ← d.close?
  some ⟨closed, .element path key, ⟨header, []⟩⟩

end Draft

/-- The rest of a header after its opening brackets, with the given closing brackets. -/
def headerRest (closing : List Char) : Part (List Key × Key) := fun cs => do
  let (key, rest) ← dottedKey (.headerTooDeep (.first cs)) cs
  if closing.isPrefixOf rest then .ok (key, rest.drop closing.length) else .error .malformed

/-- A header for an element of an array. -/
def elementHeader (d : Draft) : Part Draft := fun cs => do
  let ((path, key), rest) ← headerRest [']', ']'] (cs.drop 2)
  require do some (← d.openElement? ⟨cs, rest⟩ path key, ← finishLine? rest)

/-- A header for a table. -/
def tableHeader (d : Draft) : Part Draft := fun cs => do
  let ((path, key), rest) ← headerRest [']'] (cs.drop 1)
  require do some (← d.openTable? ⟨cs, rest⟩ path key, ← finishLine? rest)

/-- A key and its value. -/
def entryLine (bound : Nat) (d : Draft) : Part Draft := fun cs => do
  let ((path, key), rest) ← dottedKey (.tooDeep (.first cs)) cs
  match rest with
  | '=' :: rest => do
    let (v, rest) ← placed (value bound (nestingLimit - 1)) (skipBlanks rest)
    require do some (← d.store? path key v, ← finishLine? rest)
  | _ => .error .malformed

/-- A line that starts with the given characters, which are not blanks. -/
def line (bound : Nat) (d : Draft) : Part Draft
  | '#' :: cs => require ((lineEnd? (skipComment ('#' :: cs))).map (d, ·))
  | '\n' :: cs => .ok (d, cs)
  | '\r' :: cs => require ((lineBreak? ('\r' :: cs)).map (d, ·))
  | '[' :: '[' :: cs => elementHeader d ('[' :: '[' :: cs)
  | '[' :: cs => tableHeader d ('[' :: cs)
  | cs => entryLine bound d cs

/-- Reads lines up to the end, of which the second argument bounds the number. -/
def lines (bound : Nat) : Nat → Draft → List Char → Except Defect Entries
  | more + 1, d, cs =>
    match skipBlanks cs with
    | [] => require d.close?
    | c :: cs => do
      let (d, rest) ← line bound d (c :: cs)
      lines bound more d rest
  | 0, _, _ => .error .malformed

/-- The entries of a document, or why it cannot be read. A byte order mark at its start is dropped.
Each line and each item takes up a character, so there are no more of them than characters. -/
def parse (s : String) : Except Defect Entries :=
  let cs :=
    match s.toList with
    | '\uFEFF' :: cs => cs
    | cs => cs
  lines cs.length (cs.length + 1) (.empty cs) cs

end BenchRatio.Toml
