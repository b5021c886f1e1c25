import BenchRatio.Category

/-!
# Rosters

The results of a technique in a category are in the file `<technique>-<category>.csv`, and the table
of a category goes to `<category>.csv`. A roster names the directories, the techniques and the
categories of a run.

* `Roster.standard`: the roster for what a roster file or a flag leaves out.
* `Roster.category`: the files of one category.
-/

namespace BenchRatio

/-- What a run compares. -/
structure Roster where
  resultsDir : Path
  outputDir : Path
  /-- The technique to which the others are compared. -/
  baseline : String
  /-- The other techniques in the order of their columns. -/
  techniques : List String
  categories : List String
  deriving DecidableEq, Repr

namespace Roster

/-- The roster for what is left out. -/
def standard : Roster where
  resultsDir := ⟨"results"⟩
  outputDir := ⟨"results"⟩
  baseline := "original"
  techniques := ["flash-freeze", "things-js", "disclosure"]
  categories := ["scores", "sizes"]

/-- The results of a technique in a category. -/
def source (r : Roster) (category technique : String) : Source :=
  ⟨technique, r.resultsDir.join s!"{technique}-{category}.csv"⟩

/-- The files of a category. -/
def category (r : Roster) (name : String) : Category where
  name := name
  baseline := r.source name r.baseline
  treatments := r.techniques.map (r.source name)
  output := r.outputDir.join s!"{name}.csv"

/-- The categories in the order in which they run. -/
def plan (r : Roster) : List Category := r.categories.map r.category

end Roster

end BenchRatio
