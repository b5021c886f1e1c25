import BenchRatio.Command

/-!
# The program

The files that a run may touch are known before it starts: the roster file, and then the files that
the roster names. They are copied into a store, the run works on the store, and what it changed
there is written back.
-/

namespace BenchRatio.Program

/-- The text of a place, as a path from the root. -/
def pathOf (place : Place) : String := "/" ++ "/".intercalate place

/-- What is at a place. -/
def probe (place : Place) : IO (Option Node) := do
  let path := (← IO.currentDir) / pathOf place
  try
    match (← path.metadata).type with
    | .dir => return some .directory
    | .file => return some (.file (← IO.FS.readBinFile path).toList)
    | _ => return some (.device none)
  catch _ => return none

/-- Copies the directories and the file on the way of a path's pieces into the store. -/
def copyPieces (s : Store) (here : Place) : List String → IO Store
  | [] => return s
  | piece :: more =>
    if piece = "" ∨ piece = "." then copyPieces s here more
    else if piece = ".." then copyPieces s here.dropLast more
    else do
      let place := here ++ [piece]
      match ← probe place with
      | none => return s
      | some node => copyPieces (s.put place node) place more

/-- Copies what a path leads through and to into the store. -/
def copyPath (s : Store) (p : Path) : IO Store :=
  let (start, pieces) := s.origin p
  copyPieces s start pieces

/-- The paths of a category. -/
def pathsOf (c : Category) : List Path := c.output :: c.sources.map (·.path)

/-- The files that a run may touch. -/
def load (a : Arguments) : IO Store := do
  let names := ((Path.mk (← IO.currentDir).toString).pieces).filter (· ≠ "")
  let s ← copyPieces ⟨SortedMap.empty, names⟩ [] names
  let s ← a.config.toList.foldlM copyPath s
  match Command.roster s a with
  | .error _ => return s
  | .ok r => (r.plan.flatMap pathsOf).foldlM copyPath s

/-- Writes back what a run changed. -/
def save (old new : Store) : IO Unit := do
  for (place, node) in new.nodes.entries do
    if old.node? place ≠ some node then
      match node with
      | .directory => IO.FS.createDirAll (pathOf place)
      | .file content => IO.FS.writeBinFile (pathOf place) ⟨content.toArray⟩
      | .device _ => pure ()

/-- Writes the report and says what has become of standard output. -/
def printReport (text : String) : IO Stdout := do
  try
    let out ← IO.getStdout
    out.putStr text
    out.flush
    return .ready
  catch
    | .resourceVanished .. => return .closed
    | _ => return .full

/-- What is said about refused arguments. -/
def usage : String :=
  "Usage: bench_aggregate [--config PATH] [--results-dir DIR] [--output-dir DIR]\n" ++
  "  [--baseline NAME] [--technique NAME]... [--category NAME]... [--delimiter CHAR]\n" ++
  "  [--quote CHAR] [--format text|json] [-v|--verbose]\n"

/-- Runs the command on the files of the machine. -/
def runOnDisk (a : Arguments) : IO UInt32 := do
  let s ← load a
  let first := Command.run s a .ready
  save s first.store
  let out ← printReport first.stdout
  let o := Command.run s a out
  IO.eprint (Command.stderr a.verbose o)
  return if o.problem.isSome then 1 else 0

end BenchRatio.Program

/-- Runs the command line. Refused arguments end it with the code 2. -/
def main (args : List String) : IO UInt32 := do
  match BenchRatio.Arguments.parse args with
  | .error .help =>
    IO.print BenchRatio.Program.usage
    return 0
  | .error _ =>
    IO.eprint BenchRatio.Program.usage
    return 2
  | .ok a => BenchRatio.Program.runOnDisk a
