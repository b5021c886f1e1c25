import BenchRatio.Toml.Lexeme

/-!
# What is wrong with a document

All malformed documents are alike. Where a document is nested too deeply is told, though, and such a
place is never passed over in search of another reading.

* `Defect`: why a document cannot be read.
* `Defect.told?`: what is said about it, and where it is.
* `separated`: items with commas between them.
-/

namespace BenchRatio.Toml

/-- Why a document cannot be read. -/
inductive Defect
  | malformed
  /-- A value is nested too deeply, or the key of a line has too many parts, where the stretch
  begins. -/
  | tooDeep (place : Span)
  /-- The key of a header has too many parts. -/
  | headerTooDeep (place : Span)

/-- What is said about a defect, and where it is. -/
def Defect.told? : Defect → Option (Span × String)
  | .malformed => none
  | .tooDeep place => some (place, "recursion limit exceeded")
  | .headerTooDeep place => some (place, "invalid table header\nrecursion limit exceeded")

/-- The stretch of a first character. -/
def Span.first (cs : List Char) : Span := ⟨cs, cs.drop 1⟩

/-- Reads the start of some characters, or tells what is wrong with them. -/
abbrev Part (α : Type) := List Char → Except Defect (α × List Char)

/-- What a reader has read; where it reads nothing, the characters are malformed. -/
def require {α : Type} : Option α → Except Defect α
  | some a => .ok a
  | none => .error .malformed

/-- More items after an item, each after a comma. A comma without an item after it is left. The
first number bounds that of the items. -/
def moreItems {α : Type} (item : Part α) : Nat → Part (List α)
  | bound + 1, ',' :: cs =>
    match item cs with
    | .ok (a, rest) => (moreItems item bound rest).map fun (as, rest) => (a :: as, rest)
    | .error .malformed => .ok ([], ',' :: cs)
    | .error defect => .error defect
  | _, cs => .ok ([], cs)

/-- Items with commas between them, or none at all. -/
def separated {α : Type} (item : Part α) (bound : Nat) : Part (List α) := fun cs =>
  match item cs with
  | .ok (a, rest) => (moreItems item bound rest).map fun (as, rest) => (a :: as, rest)
  | .error .malformed => .ok ([], cs)
  | .error defect => .error defect

end BenchRatio.Toml
