import BenchRatio.Toml.Span

/-!
# TOML values

A document is a table. Its entries keep the order in which they were first written. Whether a table
may be extended later depends on how it came about.

* `Value`: the values of a document.
* `descend`: goes down a path of keys, making the tables that are missing.
* `insertDotted`, `openTable`, `closeTable`, `addElement`: the changes that lines of a document
  make.
-/

namespace BenchRatio.Toml

/-- How a table came about. -/
inductive Origin
  /-- A header opened it. -/
  | header
  /-- A header opened a table below it. -/
  | implied
  /-- A key with dots made it. -/
  | dotted
  /-- It stands between braces. -/
  | inline
  deriving DecidableEq, Repr

/-- A key where it was first written. -/
abbrev Key := Located String

/-- The values of a document. What a value holds has its place; a table that only keys or headers
for tables below it have made has the place of its key. -/
inductive Value
  | text (s : String)
  | integer (n : Int)
  | real (x : Float)
  | truth (b : Bool)
  /-- A date, a time or both. -/
  | moment
  /-- An array between brackets. -/
  | list (items : List (Located Value))
  | table (origin : Origin) (entries : List (Located String × Located Value))
  /-- An array of tables that headers opened: the latest one and, from it backwards, those
  before. -/
  | tables (latest : Located (List (Located String × Located Value)))
      (earlier : List (Located (List (Located String × Located Value))))

/-- The entries of a table. -/
abbrev Entries := List (Key × Located Value)

namespace Entries

/-- The value of a key. -/
def find? (es : Entries) (name : String) : Option (Located Value) :=
  (List.find? (fun e => e.1.value == name) es).map (·.2)

/-- Puts a new value in the place of a key's value. -/
def replace (es : Entries) (name : String) (value : Located Value) : Entries :=
  es.map fun e => if e.1.value = name then (e.1, value) else e

/-- Goes down a path of keys and does something to the table at its end. A table that is missing is
made, for a key with dots or for a header; a path through an array of tables goes on in the latest
one. A key with dots does not enter a table that a header opened, and nothing enters a table between
braces. -/
def descend {α : Type} (dotted : Bool) (finish : Origin → Entries → Option (α × Entries))
    (origin : Origin) : List Key → Entries → Option (α × Entries)
  | [], es => finish origin es
  | key :: more, es =>
    match es.find? key.value with
    | none => do
      let new := if dotted then Origin.dotted else .implied
      let (a, sub) ← descend dotted finish new more []
      some (a, es ++ [(key, ⟨key.span, .table new sub⟩)])
    | some ⟨span, .table found sub⟩ =>
      if found = .inline ∨ (dotted ∧ found = .header) then none
      else do
        let (a, sub) ← descend dotted finish found more sub
        some (a, replace es key.value ⟨span, .table found sub⟩)
    | some ⟨span, .tables latest earlier⟩ => do
      let (a, sub) ← descend dotted finish .header more latest.value
      some (a, replace es key.value ⟨span, .tables ⟨latest.span, sub⟩ earlier⟩)
    | some _ => none

/-- Stores a value under a key with dots. No key is stored twice, and the last table on the way must
be one that keys with dots made. -/
def insertDotted (es : Entries) (path : List Key) (key : Key) (value : Located Value) :
    Option Entries :=
  (descend true (fun origin sub =>
    if path ≠ [] ∧ origin ≠ .dotted then none
    else if (sub.find? key.value).isSome then none
    else some ((), sub ++ [(key, value)])) .header path es).map (·.2)

/-- Opens the table of a header. A table that is there only because of headers below it is taken
out, with its entries, and comes back when the table is closed; any other one may not be opened
again. -/
def openTable (es : Entries) (path : List Key) (key : Key) : Option (Entries × Entries) :=
  descend false (fun _ sub =>
    match sub.find? key.value with
    | none => some ([], sub)
    | some ⟨_, .table .implied taken⟩ => some (taken, sub.filter (·.1.value ≠ key.value))
    | some _ => none) .header path es

/-- Stores the table of a header. -/
def closeTable (es : Entries) (path : List Key) (key : Key) (table : Located Entries) :
    Option Entries :=
  (descend false (fun _ sub =>
    some ((), sub ++ [(key, ⟨table.span, .table .header table.value⟩)])) .header path es).map (·.2)

/-- Adds a table to the array of a header. The array reaches from its first table to its last. -/
def addElement (es : Entries) (path : List Key) (key : Key) (table : Located Entries) :
    Option Entries :=
  (descend false (fun _ sub =>
    match sub.find? key.value with
    | none => some ((), sub ++ [(key, ⟨table.span, .tables table []⟩)])
    | some ⟨span, .tables latest earlier⟩ =>
      some ((), replace sub key.value ⟨span.through table.span, .tables table (latest :: earlier)⟩)
    | some _ => none) .header path es).map (·.2)

end Entries

end BenchRatio.Toml
