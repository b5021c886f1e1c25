import BenchRatio.Proofs.Measurements.Forms
import BenchRatio.Proofs.Output.Cells

/-!
# Reading a written table

A written table can be read as measurements, with the first ratio of a row as the row's value. A
first ratio that is undefined is an empty cell, and that is no numeral.

* `rowMeasures_cells`, `rowLacks_cells`: what the cells of a row are to the reader.
* `read_text_defined`, `read_text_undefined`: the outcome of reading the text of a table.
* `read_of_write`: **a written table reads back**, and that of a comparison reads back as the
  baseline's names, each with the value one.
-/

namespace BenchRatio

open Record Table

/-! ## Written rows -/

namespace Table

variable {row : RatioRow}

theorem exists_defined (hne : row.ratios ≠ []) (h : row.ratios.head? ≠ some .undefined) :
    ∃ value, row.ratios.head? = some (.defined value) := by
  obtain ⟨r, ratios, hratios⟩ := List.exists_cons_of_ne_nil hne
  rw [hratios, List.head?_cons] at h ⊢
  cases r with
  | undefined => exact absurd rfl h
  | defined value => exact ⟨value, rfl⟩

/-- A row with a first ratio has its name, that ratio and some more cells. -/
theorem cells_of_head? {r : Ratio} (h : row.ratios.head? = some r) :
    ∃ more, cells row = row.benchmark :: r.text :: more := by
  obtain ⟨ratios, hratios⟩ := List.head?_eq_some_iff.mp h
  exact ⟨ratios.map Ratio.text, by simp [cells, hratios]⟩

/-- The measurement in a row is its first ratio. -/
theorem rowMeasures_cells {value : Float} (h : row.ratios.head? = some (.defined value)) :
    RowMeasures (cells row) (row.benchmark, value) := by
  obtain ⟨more, hmore⟩ := cells_of_head? h
  rw [hmore]
  refine .measured ?_
  rw [Ratio.trim_text, Ratio.read_text]

/-- A row whose first ratio is undefined has an empty text for its value. -/
theorem rowLacks_cells (h : row.ratios.head? = some .undefined) :
    RowLacks (cells row) (.notNumber row.benchmark "" .empty) := by
  obtain ⟨more, hmore⟩ := cells_of_head? h
  rw [hmore]
  exact .numeral rfl

end Table

/-! ## Written tables -/

namespace Measurements

/-- A row's name and its first ratio, if that is defined. -/
def firstRatio? (row : RatioRow) : Option (String × Float) :=
  (row.ratios.head?.bind Ratio.value?).map (row.benchmark, ·)

theorem firstRatio?_of_head? {row : RatioRow} {value : Float}
    (h : row.ratios.head? = some (.defined value)) :
    firstRatio? row = some (row.benchmark, value) := by
  rw [firstRatio?, h]
  rfl

theorem firstRatios_of_measures {rows : List RatioRow} {pairs : List (String × Float)}
    (hdefined : ∀ row ∈ rows, ∃ value, row.ratios.head? = some (.defined value))
    (h : List.Forall₂ (fun row p => RowMeasures (cells row) p) rows pairs) :
    pairs = rows.filterMap firstRatio? := by
  induction h with
  | nil => rfl
  | @cons row p rows pairs hp _ ih =>
    obtain ⟨value, hvalue⟩ := hdefined row List.mem_cons_self
    rw [List.filterMap_cons_some (firstRatio?_of_head? hvalue),
      hp.unique (rowMeasures_cells hvalue), ih fun r hr => hdefined r (List.mem_cons_of_mem _ hr)]

section

variable {labels : List String} {rows : List RatioRow} (origin : String)

/-- The text of a table is written from its cells. -/
theorem spelled_text (hwidth : ∀ row ∈ rows, row.ratios.length = labels.length) :
    Spelled (records .table (text labels rows)) (("benchmark" :: labels) :: rows.map cells) := by
  rw [Spelled, records_text, goodRows_eq hwidth, List.map_cons, List.map_map]
  rfl

/-- A table whose first ratios are all defined is read as them. -/
theorem read_text_defined (hwidth : ∀ row ∈ rows, row.ratios.length = labels.length)
    (hdefined : ∀ row ∈ rows, ∃ value, row.ratios.head? = some (.defined value)) :
    (read .table origin { bytes := text labels rows }).result =
      .ok (SortedMap.ofList (rows.filterMap firstRatio?)) := by
  rcases read_of_texts origin (spelled_text hwidth) with
    ⟨pairs, hpairs, hok⟩ | ⟨good, bad, more, defect, hsplit, -, hlacks, -⟩
  · have hrows := List.forall₂_map_left_iff.mp hpairs
    rw [hok, firstRatios_of_measures hdefined hrows]
  · -- No row lacks a measurement.
    have hbad : bad ∈ rows.map cells := by
      rw [show rows.map cells = good ++ bad :: more from hsplit]
      simp
    obtain ⟨row, hrow, rfl⟩ := List.mem_map.mp hbad
    obtain ⟨value, hvalue⟩ := hdefined row hrow
    exact absurd (rowMeasures_cells hvalue) hlacks.not_measures

/-- A table with a first ratio that is undefined has that row as its first bad one. -/
theorem read_text_undefined (hlabels : labels ≠ [])
    (hwidth : ∀ row ∈ rows, row.ratios.length = labels.length) {j : Nat} {row : RatioRow}
    (hrow : rows[j]? = some row) (hundefined : row.ratios.head? = some .undefined)
    (hbefore : ∀ k other, k < j → rows[k]? = some other →
      other.ratios.head? ≠ some .undefined) :
    (read .table origin { bytes := text labels rows }).result =
      .error (.badRow origin (j + 2) (.notNumber row.benchmark "" .empty)) := by
  have hlacks := rowLacks_cells hundefined
  have hat : (rows.map cells)[j]? = some (cells row) := by
    rw [List.getElem?_map, hrow, Option.map_some]
  rcases read_of_texts origin (spelled_text hwidth) with
    ⟨pairs, hpairs, -⟩ | ⟨good, bad, more, defect, hsplit, hgood, hbad, herr⟩
  · obtain ⟨hj, hcells⟩ := List.getElem?_eq_some_iff.mp hat
    have hmeasures : RowMeasures (rows.map cells)[j] _ := hpairs.get hj (hpairs.length_eq ▸ hj)
    rw [hcells] at hmeasures
    exact absurd hmeasures hlacks.not_measures
  · replace hsplit : rows.map cells = good ++ bad :: more := hsplit
    have hge : good.length ≤ j := by
      by_contra hlt
      rw [hsplit, List.getElem?_append_left (by omega)] at hat
      obtain ⟨p, hp⟩ := hgood _ (List.mem_of_getElem? hat)
      exact hlacks.not_measures hp
    have hle : j ≤ good.length := by
      by_contra hlt
      have hlast : (rows.map cells)[good.length]? = some bad := by simp [hsplit]
      rw [List.getElem?_map] at hlast
      obtain ⟨other, hother, rfl⟩ := Option.map_eq_some_iff.mp hlast
      have hne : other.ratios ≠ [] := fun hnil => hlabels <| List.eq_nil_of_length_eq_zero <| by
        rw [← hwidth other (List.mem_of_getElem? hother), hnil, List.length_nil]
      obtain ⟨value, hvalue⟩ := exists_defined hne (hbefore _ other (by omega) hother)
      exact hbad.not_measures (rowMeasures_cells hvalue)
    obtain rfl : j = good.length := Nat.le_antisymm hle hge
    rw [hsplit, List.getElem?_append_right (Nat.le_refl _), Nat.sub_self] at hat
    obtain rfl : bad = cells row := Option.some.inj hat
    rw [herr, hbad.unique hlacks]

end

/-! ## Written comparisons -/

theorem head?_ratioTable {baseline : Measurements} {treatments : List Measurements} {row : RatioRow}
    (h : row ∈ (ratioTable baseline treatments).result) :
    row.ratios.head? = some (.defined 1.0) := by
  obtain ⟨e, -, rfl⟩ := List.mem_map.mp h
  rfl

/-- The first ratios of a comparison are ones, in the order of the baseline's names. -/
theorem firstRatios_ratioTable (baseline : Measurements) (treatments : List Measurements) :
    (ratioTable baseline treatments).result.filterMap firstRatio? =
      baseline.keys.map fun n => (n, (1.0 : Float)) := by
  rw [← benchmarks_ratioTable baseline treatments, List.map_map, ← List.filterMap_eq_map]
  refine List.filterMap_congr fun row hrow => ?_
  rw [firstRatio?_of_head? (head?_ratioTable hrow)]
  rfl

theorem lastIn_map_one {names : List String} {name : String} {value : Float} :
    LastIn (names.map fun n => (n, (1.0 : Float))) name value ↔ name ∈ names ∧ value = 1.0 := by
  have hmem : ∀ v, LastIn (names.map fun n => (n, (1.0 : Float))) name v →
      name ∈ names ∧ v = 1.0 := by
    intro v hv
    obtain ⟨n, hn, heq⟩ := List.mem_map.mp hv.mem
    obtain ⟨rfl, rfl⟩ := Prod.mk.inj heq
    exact ⟨hn, rfl⟩
  refine ⟨hmem value, ?_⟩
  rintro ⟨hname, rfl⟩
  have hkey : name ∈ (names.map fun n => (n, (1.0 : Float))).map (·.1) := by simpa using hname
  obtain ⟨v, hv⟩ := exists_lastIn hkey
  rwa [(hmem v hv).2] at hv

/-- **Written tables read back.** The bytes of a table that has a column and rows of the right
width, also of one whose summary is refused, are read as the map from each name to the first ratio
of its last row, if all first ratios are defined; otherwise the first row without one is reported,
where rows count from one and the header is the first. The table of a comparison is read as the
baseline's names, each with the value one. -/
theorem read_of_write (origin : String) :
    (∀ labels rows, labels ≠ [] → (∀ row ∈ rows, row.ratios.length = labels.length) →
      let outcome := (read .table origin
        { bytes := (write (.direct .unlimited) labels rows).1.received.toList }).result
      ((∀ row ∈ rows, ∃ value, row.ratios.head? = some (.defined value)) →
        ∃ m, outcome = .ok m ∧ ∀ name value,
          m.get? name = some value ↔ LastIn (rows.filterMap firstRatio?) name value) ∧
      ∀ j row, rows[j]? = some row → row.ratios.head? = some .undefined →
        (∀ k other, k < j → rows[k]? = some other → other.ratios.head? ≠ some .undefined) →
        outcome = .error (.badRow origin (j + 2) (.notNumber row.benchmark "" .empty))) ∧
    ∀ (baseline : Measurements) (treatments : List Measurements) (labels : List String),
      labels.length = treatments.length + 1 →
      ∃ m, (read .table origin { bytes := (write (.direct .unlimited) labels
          (ratioTable baseline treatments).result).1.received.toList }).result = .ok m ∧
        ∀ name value, m.get? name = some value ↔ name ∈ baseline.keys ∧ value = 1.0 := by
  refine ⟨fun labels rows hlabels hwidth => ?_, fun baseline treatments labels hlabels => ?_⟩
  · rw [(write_unlimited labels rows).1]
    refine ⟨fun hdefined => ?_, fun j row hrow hundefined hbefore => ?_⟩
    · exact ⟨_, read_text_defined origin hwidth hdefined,
        SortedMap.get?_ofList_eq_some_iff _⟩
    · exact read_text_undefined origin hlabels hwidth hrow hundefined hbefore
  · rw [(write_unlimited labels _).1]
    have hwidth : ∀ row ∈ (ratioTable baseline treatments).result,
        row.ratios.length = labels.length := fun row hrow =>
      (length_ratios_of_mem_ratioTable hrow).trans hlabels.symm
    refine ⟨_, read_text_defined origin hwidth fun row hrow => ⟨1.0, head?_ratioTable hrow⟩, ?_⟩
    intro name value
    rw [SortedMap.get?_ofList_eq_some_iff, firstRatios_ratioTable, lastIn_map_one]

/-- A name with a line break in two rows, an empty name before an undefined ratio, and a baseline
with a treatment that lacks its benchmark. -/
theorem read_of_write_hostile :
    (∃ m, (read .table "t" { bytes := (write (.direct .unlimited) ["a,\""]
        [⟨"x\r\n", [.defined 1.0]⟩, ⟨"x\r\n", [.defined 0.5]⟩]).1.received.toList }).result =
          .ok m ∧ m.get? "x\r\n" = some 0.5) ∧
    (read .table "t" { bytes := (write (.direct .unlimited) ["a"]
        [⟨"", [.defined 1.0]⟩, ⟨" y", [.undefined]⟩]).1.received.toList }).result =
      .error (.badRow "t" 3 (.notNumber " y" "" .empty)) ∧
    ∃ m, (read .table "t" { bytes := (write (.direct .unlimited) ["a", "b"]
        (ratioTable (SortedMap.ofList [("k", 0.0)]) [SortedMap.empty]).result).1.received.toList
          }).result = .ok m ∧ m.get? "k" = some 1.0 := by
  obtain ⟨htable, hratios⟩ := read_of_write "t"
  refine ⟨?_, ?_, ?_⟩
  · obtain ⟨m, hm, hget⟩ := (htable ["a,\""]
      [⟨"x\r\n", [.defined 1.0]⟩, ⟨"x\r\n", [.defined 0.5]⟩] (by simp) (by simp)).1 (by simp)
    exact ⟨m, hm, (hget _ _).mpr ⟨[("x\r\n", 1.0)], [], rfl, by simp⟩⟩
  · refine (htable ["a"] [⟨"", [.defined 1.0]⟩, ⟨" y", [.undefined]⟩] (by simp) (by simp)).2
      1 _ rfl rfl ?_
    intro k other hk hother
    obtain rfl : k = 0 := by omega
    obtain rfl := Option.some.inj hother
    simp
  · obtain ⟨m, hm, hget⟩ := hratios (SortedMap.ofList [("k", 0.0)]) [SortedMap.empty] ["a", "b"] rfl
    exact ⟨m, hm, (hget _ _).mpr ⟨by decide +kernel, rfl⟩⟩

end Measurements

end BenchRatio
