import BenchRatio.Measurements.Reading
import BenchRatio.Store

/-!
# Loading results files

* `Measurements.load`: the measurements in a file.
* `Measurements.loadAll`: those in several files, up to the first one that has none.
-/

namespace BenchRatio.Measurements

/-- The measurements in a file. A file that cannot be opened and one that cannot be read fail alike.
The path is the origin that defects of its rows name. -/
def load (s : Store) (d : Dialect) (p : Path) : Logged (Except Problem Measurements) :=
  match s.read p with
  | .error cause => ⟨[], .error (.unreadable p cause)⟩
  | .ok bytes =>
    let seen := read d p.text { bytes }
    match seen.result with
    | .error problem => ⟨seen.notices, .error problem⟩
    | .ok m => ⟨seen.notices ++ [.loaded m.size p.text], .ok m⟩

/-- The measurements in files, loaded one after the other up to the first one that has none. -/
def loadAll (s : Store) (d : Dialect) : List Path → Logged (Except Problem (List Measurements))
  | [] => ⟨[], .ok []⟩
  | p :: more =>
    let first := load s d p
    match first.result with
    | .error problem => ⟨first.notices, .error problem⟩
    | .ok m =>
      let others := loadAll s d more
      ⟨first.notices ++ others.notices, others.result.map (m :: ·)⟩

end BenchRatio.Measurements
