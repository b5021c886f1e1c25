import BenchRatio.Fault
import BenchRatio.Path
import BenchRatio.SortedMap
import BenchRatio.Text.Utf8

/-!
# Files and directories

A store is a tree of files and directories, held as a map from places to what is there. A place is
the list of names from the root down. There are neither symbolic nor hard links, so no file is at
two places.

* `Store.follow`: walks a path's pieces from a place.
* `Store.read`: the content of a file.
* `Store.makeDir`, `Store.makeDirs`: a new directory, also with all directories above it.
* `Store.create`: an empty file, in place of any earlier content.
* `node?_put`: a change is seen at its own place and nowhere else.
-/

namespace BenchRatio

/-- The names from the root to a file or a directory. -/
abbrev Place := List String

/-- What is at a place. -/
inductive Node
  | directory
  | file (content : Bytes)
  /-- A device: writing loses the bytes or is refused, and reading gives nothing. A full device
  gives zeros without end instead, so a run that reads one never ends; here it is empty too. -/
  | device (refusal : Option Fault)
  deriving DecidableEq

/-- A tree of files and directories. -/
structure Store where
  nodes : SortedMap Place Node
  /-- Where paths that do not start at the root begin. -/
  workingDir : Place

namespace Store

/-! ## Places -/

/-- What is at a place; the root is a directory. -/
def node? (s : Store) (here : Place) : Option Node :=
  if here = [] then some .directory else s.nodes.get? here

/-- Puts a file or a directory at a place. -/
def put (s : Store) (here : Place) (n : Node) : Store :=
  { s with nodes := s.nodes.insert here n }

theorem node?_put (s : Store) {p : Place} (hp : p ≠ []) (n : Node) (q : Place) :
    (s.put p n).node? q = if q = p then some n else s.node? q := by
  unfold node? put
  by_cases hq : q = []
  · simp [hq, Ne.symm hp]
  · simp [hq, SortedMap.get?_insert]

/-! ## Walking -/

/-- The longest name, in bytes. -/
def nameLimit : Nat := 255

/-- The first length of a path, in bytes, that is too long. -/
def pathLimit : Nat := 4096

/-- Walks pieces of a path from a place. Every piece, an empty one and a dot included, asks for a
directory to stand in. -/
def follow (s : Store) (here : Place) : List String → Except Fault Place
  | [] => if s.node? here = none then .error .notFound else .ok here
  | piece :: more =>
    match s.node? here with
    | some .directory =>
      if piece = "" ∨ piece = "." then s.follow here more
      else if piece = ".." then s.follow here.dropLast more
      else if nameLimit < piece.utf8ByteSize then .error .nameTooLong
      else s.follow (here ++ [piece]) more
    | some _ => .error .notDirectory
    | none => .error .notFound

/-- What is wrong with a path before anything is looked up. -/
def pathFault? (p : Path) : Option Fault :=
  if p.text.toList.contains '\x00' then some .nulInPath
  else if p.text = "" then some .notFound
  else if pathLimit ≤ p.text.utf8ByteSize then some .nameTooLong
  else none

/-- Where a path begins, and its pieces from there. -/
def origin (s : Store) (p : Path) : Place × List String :=
  if p.isAbsolute then ([], p.pieces.drop 1) else (s.workingDir, p.pieces)

/-- The place of something that exists. -/
def locate (s : Store) (p : Path) : Except Fault Place :=
  match pathFault? p with
  | some fault => .error fault
  | none =>
    let (start, pieces) := s.origin p
    s.follow start pieces

/-- Whether a path leads to a directory. -/
def isDirectory (s : Store) (p : Path) : Bool :=
  match s.locate p with
  | .ok place => s.node? place = some .directory
  | .error _ => false

/-- The content of a file. -/
def read (s : Store) (p : Path) : Except Fault Bytes :=
  match s.locate p with
  | .error fault => .error fault
  | .ok place =>
    match s.node? place with
    | some (.file content) => .ok content
    | some (.device _) => .ok []
    | some .directory => .error .isDirectory
    | none => .error .notFound

/-! ## Making things -/

/-- Where a path's last name goes. -/
structure Target where
  /-- The directory above. -/
  above : Place
  name : String
  /-- Whether slashes follow the name. -/
  trailing : Bool

/-- The directory above a path's last name, which exists, and that name, which need not. The root
has no last name. -/
def target (s : Store) (p : Path) : Except Fault (Option Target) :=
  match pathFault? p with
  | some fault => .error fault
  | none =>
    let (start, pieces) := s.origin p
    match pieces.reverse.dropWhile (· = "") with
    | [] => .ok none
    | name :: above =>
      (s.follow start (above.reverse ++ [""])).map fun place =>
        some ⟨place, name, pieces.getLast? = some ""⟩

/-- Whether a last name is one that every directory has. -/
def isDots (name : String) : Bool := name = "." ∨ name = ".."

/-- Makes a directory where there is nothing. -/
def makeDir (s : Store) (p : Path) : Except Fault Store :=
  match s.target p with
  | .error fault => .error fault
  | .ok none => .error .alreadyExists
  | .ok (some t) =>
    if isDots t.name then .error .alreadyExists
    else if nameLimit < t.name.utf8ByteSize then .error .nameTooLong
    else if s.node? (t.above ++ [t.name]) = none then
      .ok (s.put (t.above ++ [t.name]) .directory)
    else .error .alreadyExists

/-- Makes a directory and those above it that are missing, where `depth` bounds their number. What
has been made stays, also if the rest fails. -/
def makeDirsFrom (s : Store) : Nat → Path → Store × Option Fault
  | 0, _ => (s, some .notFound)
  | depth + 1, p =>
    if p.text = "" then (s, none)
    else
      match s.makeDir p with
      | .ok s' => (s', none)
      | .error .notFound =>
        match p.parent? with
        | none => (s, some .notFound)
        | some above =>
          match s.makeDirsFrom depth above with
          | (s', some fault) => (s', some fault)
          | (s', none) =>
            match s'.makeDir p with
            | .ok s'' => (s'', none)
            | .error fault => (s', if s'.isDirectory p then none else some fault)
      | .error fault => (s, if s.isDirectory p then none else some fault)

/-- Makes a directory and those above it that are missing. -/
def makeDirs (s : Store) (p : Path) : Store × Option Fault :=
  s.makeDirsFrom (p.pieces.length + 1) p

/-- Opens a file for writing: a new one, or an old one whose content is dropped. A device is opened
as it is. -/
def create (s : Store) (p : Path) : Except Fault (Store × Place) :=
  match s.target p with
  | .error fault => .error fault
  | .ok none => .error .isDirectory
  | .ok (some t) =>
    if t.trailing ∨ isDots t.name then .error .isDirectory
    else if nameLimit < t.name.utf8ByteSize then .error .nameTooLong
    else
      let place := t.above ++ [t.name]
      match s.node? place with
      | some .directory => .error .isDirectory
      | some (.device _) => .ok (s, place)
      | some (.file _) | none => .ok (s.put place (.file []), place)

end Store

end BenchRatio
