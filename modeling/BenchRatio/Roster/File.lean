import BenchRatio.Roster
import BenchRatio.Text.Shown
import BenchRatio.Toml.Document

/-!
# Roster files

A roster file is a TOML document with the keys of a roster. Keys that are left out keep their
standard values; other keys, and values of another type, are refused in the order of the document.

* `Roster.ofEntries`: the roster that a document's entries describe.
* `Roster.load`: the roster in a file.
-/

namespace BenchRatio

/-! ## What a document may say -/

/-- What a key asks for. -/
inductive Wanted
  | text
  | path
  | list
  deriving DecidableEq, Repr

/-- What a key asks for, in words. -/
def Wanted.words : Wanted → String
  | .text => "a string"
  | .path => "path string"
  | .list => "a sequence"

/-- A value in words. -/
def Toml.Value.words : Toml.Value → String
  | .text s => "string " ++ Text.shown s
  | .integer n => s!"integer `{n}`"
  | .real x => s!"floating point `{Decimal.Layout.pointed.render x}`"
  | .truth b => s!"boolean `{b}`"
  | .moment | .table .. => "map"
  | .list _ | .tables .. => "sequence"

/-- Why a document is not a roster. -/
inductive Misfit
  | unknownKey (key : Toml.Key)
  | wrongType (found : Toml.Located Toml.Value) (wanted : Wanted)

/-- The misfit in words. -/
def Misfit.message : Misfit → String
  | .unknownKey key =>
    s!"unknown field `{key.value}`, expected one of " ++
      "`results_dir`, `output_dir`, `baseline`, `techniques`, `categories`"
  | .wrongType found wanted => s!"invalid type: {found.value.words}, expected {wanted.words}"

/-- Where the misfit is. -/
def Misfit.span : Misfit → Toml.Span
  | .unknownKey key => key.span
  | .wrongType found _ => found.span

namespace Roster

/-- The text of a value. -/
def textOf (wanted : Wanted) (v : Toml.Located Toml.Value) : Except Misfit String :=
  match v.value with
  | .text s => .ok s
  | _ => .error (.wrongType v wanted)

/-- The texts of an array's items. -/
def textsOf (v : Toml.Located Toml.Value) : Except Misfit (List String) :=
  match v.value with
  | .list items => items.mapM (textOf .text)
  | .tables latest earlier =>
    (latest :: earlier).reverse.mapM fun e => textOf .text ⟨e.span, .table .header e.value⟩
  | _ => .error (.wrongType v .list)

/-- Puts a key's value into a roster. -/
def withEntry (r : Roster) (key : Toml.Key) (v : Toml.Located Toml.Value) :
    Except Misfit Roster :=
  match key.value with
  | "results_dir" => (textOf .path v).map fun s => { r with resultsDir := ⟨s⟩ }
  | "output_dir" => (textOf .path v).map fun s => { r with outputDir := ⟨s⟩ }
  | "baseline" => (textOf .text v).map fun s => { r with baseline := s }
  | "techniques" => (textsOf v).map fun ss => { r with techniques := ss }
  | "categories" => (textsOf v).map fun ss => { r with categories := ss }
  | _ => .error (.unknownKey key)

/-- The roster that a document's entries describe. -/
def ofEntries (es : Toml.Entries) : Except Misfit Roster :=
  es.foldlM (fun r e => r.withEntry e.1 e.2) standard

/-! ## Files -/

/-- Why a file gives no roster. -/
inductive LoadProblem
  | unreadable (path : Path) (cause : Fault)
  /-- The file, with the given text, is not well formed. -/
  | malformed (path : Path) (document : String) (why : Toml.Defect)
  /-- The file, with the given text, is well formed but describes no roster. -/
  | misfit (path : Path) (document : String) (why : Misfit)

/-- The problem in words, followed by what caused it. -/
def LoadProblem.chain : LoadProblem → List String
  | .unreadable path cause => [s!"read roster {path.text}", cause.message]
  | .malformed path .. => [s!"parse roster {path.text}"]
  | .misfit path _ why => [s!"parse roster {path.text}", why.message]

/-- The problem in words, followed by what caused it, with the line of the document where that is,
if that is told. -/
def LoadProblem.account : LoadProblem → List String
  | .malformed path document why =>
    s!"parse roster {path.text}" ::
      (why.told?.map fun (place, words) => place.excerpt document.toList words).toList
  | .misfit path document why =>
    [s!"parse roster {path.text}", why.span.excerpt document.toList why.message]
  | problem => problem.chain

/-- The text of a file. -/
def textIn (s : Store) (p : Path) : Except Fault String :=
  match s.read p with
  | .error cause => .error cause
  | .ok bytes =>
    match Utf8.decode? bytes with
    | none => .error .notText
    | some text => .ok text

/-- The roster in a file. -/
def load (s : Store) (p : Path) : Except LoadProblem Roster :=
  match textIn s p with
  | .error cause => .error (.unreadable p cause)
  | .ok text =>
    match Toml.parse text with
    | .error why => .error (.malformed p text why)
    | .ok es =>
      match ofEntries es with
      | .error why => .error (.misfit p text why)
      | .ok r => .ok r

end Roster

end BenchRatio
