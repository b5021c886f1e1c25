import BenchRatio.SortedMap

/-!
# Measurements

The measurements of one technique: a number for each benchmark, kept in ascending order of the
benchmarks' names. Names compare by code points, which is also the order of their UTF-8 bytes.
-/

namespace BenchRatio

/-- Benchmark names with their measurements. -/
abbrev Measurements := SortedMap String Float

namespace Measurements

/-- No measurement. -/
def empty : Measurements := SortedMap.empty

/-- Whether two sets measure the same benchmarks and agree on each. Numbers are compared as numbers:
the two zeros agree, and what is not a number agrees with nothing. -/
def agrees (a b : Measurements) : Bool :=
  a.keys = b.keys ∧ (a.entries.zip b.entries).all fun p => p.1.2 == p.2.2

end Measurements

end BenchRatio
