/-!
# Paths

A path is a text of names with slashes between them. Joining and taking the parent work on the
text alone; nothing is looked up and nothing is simplified.

* `Path.join`: a path below another one, unless it starts at the root.
* `Path.parent?`: the path without its last name.
* `Path.pieces`: the texts between the slashes.
-/

namespace BenchRatio

/-- A path to a file or a directory. -/
structure Path where
  text : String
  deriving DecidableEq, Repr

instance : Inhabited Path := ⟨⟨""⟩⟩

namespace Path

/-- The texts between the slashes; there is always one more than there are slashes. -/
def splitSlashes : List Char → List (List Char)
  | [] => [[]]
  | c :: cs =>
    if c = '/' then [] :: splitSlashes cs
    else
      match splitSlashes cs with
      | [] => [[c]]
      | p :: ps => (c :: p) :: ps

/-- The texts between the slashes of a path. -/
def pieces (p : Path) : List String := (splitSlashes p.text.toList).map String.ofList

/-- Whether a path starts at the root. -/
def isAbsolute (p : Path) : Bool := p.text.toList.head? = some '/'

/-- The path of `name` seen from `dir`. A name that starts at the root stands for itself, and no
slash is added after an empty path or a final slash. -/
def join (dir : Path) (name : String) : Path :=
  if (Path.mk name).isAbsolute then ⟨name⟩
  else if dir.text = "" ∨ dir.text.toList.getLast? = some '/' then ⟨dir.text ++ name⟩
  else ⟨dir.text ++ "/" ++ name⟩

/-- Pieces in reverse order, without those at the front that name nothing: empty ones, and dots that
do not start the path. -/
def dropNameless : List String → List String
  | [] => []
  | [first] => if first = "" then [] else [first]
  | piece :: more => if piece = "" ∨ piece = "." then dropNameless more else piece :: more

/-- The path without its last name; the root and the empty path have none. -/
def parent? (p : Path) : Option Path :=
  match dropNameless p.pieces.reverse with
  | [] => none
  | _ :: above =>
    match dropNameless above with
    | [] => some ⟨if p.isAbsolute then "/" else ""⟩
    | kept => some ⟨"/".intercalate kept.reverse⟩

theorem splitSlashes_ne_nil (cs : List Char) : splitSlashes cs ≠ [] := by
  cases cs with
  | nil => simp [splitSlashes]
  | cons c cs =>
    rw [splitSlashes]
    split
    · simp
    · split <;> simp

example : (join ⟨"results"⟩ "first-scores.csv").text = "results/first-scores.csv" := by decide
example : (join ⟨"results/"⟩ "/a.csv").text = "/a.csv" := by decide
example : (parent? ⟨"x//y/./z.csv"⟩).map (·.text) = some "x//y" := by decide
example : (parent? ⟨"./z.csv"⟩).map (·.text) = some "." := by decide
example : (parent? ⟨"z.csv"⟩).map (·.text) = some "" := by decide
example : (parent? ⟨"/"⟩).map (·.text) = none := by decide

end Path

end BenchRatio
