import BenchRatio.Command.Arguments
import BenchRatio.Report
import BenchRatio.Roster.File
import BenchRatio.Text.ControlSequence

/-!
# The command

A run takes its roster from a file or the standard one, lets flags override it, runs every category
in turn, reports on all of them and fails if one of them failed.

* `Command.roster`: the roster of a run.
* `Command.runAll`: every category in order, each on the files that the one before it left.
* `Command.run`: the whole run.
-/

namespace BenchRatio

/-- Why a run fails, apart from the categories. -/
inductive RunProblem
  | roster (why : Roster.LoadProblem)
  | emptyBaseline
  /-- The first technique without a name, counted from one. -/
  | emptyTechnique (number : Nat)
  | noCategories
  /-- A format character that is not ASCII. -/
  | notAscii (flag : String) (c : Char)
  /-- The report could not be written. -/
  | report (cause : Fault)
  /-- Some of all categories have no table. -/
  | categories (total : Nat) (failures : List Failure)

/-- The problem in words, followed by what caused it. -/
def RunProblem.chain : RunProblem → List String
  | .roster why => why.chain
  | .emptyBaseline => ["baseline technique name must not be empty"]
  | .emptyTechnique number => [s!"technique #{number} has an empty name"]
  | .noCategories => ["no categories to aggregate"]
  | .notAscii flag c => [s!"invalid {flag} '{c}' (expected a single ASCII character)"]
  | .report cause => ["write report to stdout", cause.message]
  | .categories total failures =>
    let details := failures.map fun f => s!"{f.category}: {f.problem.message}"
    [s!"{failures.length} of {total} categories failed\n  " ++ "\n  ".intercalate details]

/-- The problem in words, followed by what caused it, with the line of a roster file where that
is. -/
def RunProblem.account : RunProblem → List String
  | .roster why => why.account
  | problem => problem.chain

/-- Where the report goes. -/
inductive Stdout
  | ready
  /-- Every byte is refused. -/
  | full
  /-- Nobody reads any more. -/
  | closed
  deriving DecidableEq, Repr

/-- What a run leaves behind. -/
structure Outcome where
  store : Store
  notices : List Notice
  /-- What has been written to standard output. -/
  stdout : String
  problem : Option RunProblem

namespace Command

/-! ## The roster -/

/-- A roster with the settings of flags in the place of its own. Names are taken without the blanks
around them. -/
def override (r : Roster) (a : Arguments) : Roster where
  resultsDir := a.resultsDir.getD r.resultsDir
  outputDir := a.outputDir.getD r.outputDir
  baseline := (a.baseline.map Blank.trim).getD r.baseline
  techniques := if a.techniques = [] then r.techniques else a.techniques.map Blank.trim
  categories := if a.categories = [] then r.categories else a.categories.map Blank.trim

/-- A roster with a baseline, named techniques and at least one category. -/
def check (r : Roster) : Except RunProblem Roster :=
  if r.baseline = "" then .error .emptyBaseline
  else
    match r.techniques.findIdx? (· = "") with
    | some i => .error (.emptyTechnique (i + 1))
    | none => if r.categories = [] then .error .noCategories else .ok r

/-- The roster of a run. -/
def roster (s : Store) (a : Arguments) : Except RunProblem Roster :=
  match a.config with
  | none => check (override .standard a)
  | some p =>
    match Roster.load s p with
    | .error why => .error (.roster why)
    | .ok r => check (override r a)

/-- A format character as a byte. -/
def asciiByte (flag : String) (c : Char) : Except RunProblem UInt8 :=
  if c.toNat < 128 then .ok c.toUInt8 else .error (.notAscii flag c)

/-- The format of a run's results files. -/
def dialect (a : Arguments) : Except RunProblem Dialect := do
  let delimiter ← asciiByte "--delimiter" (a.delimiter.getD ',')
  let quote ← asciiByte "--quote" (a.quote.getD '|')
  return ⟨delimiter, quote⟩

/-! ## The categories -/

/-- What running categories leaves behind. -/
structure Progress where
  store : Store
  notices : List Notice
  reports : List CategoryReport
  failures : List Failure

/-- Runs every category in order, each on the files that the one before it left. A category that
fails does not keep the others from running. -/
def runAll (s : Store) (d : Dialect) : List Category → Progress
  | [] => ⟨s, [], [], []⟩
  | c :: more =>
    let (s', ran) := c.run s d
    let others := runAll s' d more
    match ran.result with
    | .ok report =>
      { others with
        notices := ran.notices ++ others.notices
        reports := report :: others.reports }
    | .error problem =>
      { others with
        notices := ran.notices ++ .failed c.name problem :: others.notices
        failures := ⟨c.name, problem⟩ :: others.failures }

/-! ## The report -/

/-- What arrives of a text, and why not all of it. -/
def print (out : Stdout) (text : String) : String × Option Fault :=
  match out with
  | .ready => (text, none)
  | .full => ("", if text = "" then none else some .noSpace)
  | .closed => ("", if text = "" then none else some .brokenPipe)

/-- The report on categories, and the notices about it. -/
def report (format : Format) (p : Progress) : Logged String :=
  match format with
  | .text => ⟨[], Report.text p.reports⟩
  | .json => ⟨Report.nullNotices p.reports, Report.json p.reports p.failures⟩

/-- Why a run fails after its categories have run. Nobody has to read the report. -/
def finalProblem (p : Progress) (printed : Option Fault) : Option RunProblem :=
  match printed with
  | none | some .brokenPipe =>
    if p.failures.isEmpty then none
    else some (.categories (p.failures.length + p.reports.length) p.failures)
  | some cause => some (.report cause)

/-- Runs a roster's categories and reports on them. -/
def runRoster (s : Store) (r : Roster) (d : Dialect) (format : Format) (out : Stdout) : Outcome :=
  let p := runAll s d r.plan
  let text := report format p
  let (stdout, printed) := print out text.result
  ⟨p.store, p.notices ++ text.notices, stdout, finalProblem p printed⟩

/-- A whole run. The roster is checked before the format characters, and both before any category
runs. -/
def run (s : Store) (a : Arguments) (out : Stdout) : Outcome :=
  match (do return (← roster s a, ← dialect a) : Except RunProblem (Roster × Dialect)) with
  | .error problem => ⟨s, [], "", some problem⟩
  | .ok (r, d) => runRoster s r d (a.format.getD .text) out

/-! ## What the log shows -/

/-- Whether a notice is shown: messages about details only if they were asked for. -/
def isShown (verbose : Bool) (n : Notice) : Bool := verbose || n.severity ≠ .debug

/-- A notice as a line of the log: weight and sender, then the words. Further lines of the words are
set in. -/
def logLine (n : Notice) : String :=
  let level := n.severity.name ++ String.ofList (List.replicate (5 - n.severity.name.length) ' ')
  let words := n.message.toList.flatMap fun c => if c = '\n' then "\n    ".toList else [c]
  s!"[{level} {n.scope}] " ++ String.ofList words

/-- A text whose further lines are set in. -/
def setIn (s : String) : String :=
  String.ofList ("    ".toList ++ s.toList.flatMap fun c =>
    if c = '\n' then "\n    ".toList else [c])

/-- A problem as the last words of a run. -/
def lastWords (p : RunProblem) : String :=
  match p.account with
  | [] => "Error: "
  | text :: causes =>
    "Error: " ++ text ++
      (if causes = [] then "" else "\n\nCaused by:\n" ++ "\n".intercalate (causes.map setIn))

/-- Everything a run writes to standard error when that is no terminal: the log without control
characters, each line taken by itself with its line feed, and then the last words as they are. -/
def stderr (verbose : Bool) (o : Outcome) : String :=
  let lines := (o.notices.filter (isShown verbose)).map fun n =>
    Text.withoutControls (logLine n ++ "\n")
  String.join lines ++ ((o.problem.map lastWords).map (· ++ "\n")).getD ""

end Command

end BenchRatio
