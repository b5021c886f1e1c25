import BenchRatio.Proofs.Decimal.Layout
import BenchRatio.Proofs.Output.Table
import BenchRatio.Proofs.Record.Forms
import Mathlib.Data.List.Forall2

/-!
# The cells of a written table

The text of a table, read as records, gives the cells that were written, whatever characters the
names and the labels have. A cell with a ratio is a numeral of that ratio and any other one is
empty, so the summary can be computed again from the cells.

* `records_text`: the records of a table's text.
* `texts?_text`: the same as texts.
* `summary_of_write`: **the reported summary is that of the written cells**.
-/

namespace BenchRatio

/-! ## Ratios as cells -/

namespace Ratio

theorem text_eq_empty_iff (r : Ratio) : r.text = "" ↔ r = .undefined := by
  cases r with
  | undefined => simp [text]
  | defined value => simp [text, Decimal.render_ne_empty Decimal.readable_cell value]

theorem read_text (value : Float) : Numeral.read (defined value).text = .ok value :=
  Decimal.read_render Decimal.readable_cell value

theorem trim_text (r : Ratio) : Blank.trim r.text = r.text := by
  cases r with
  | undefined => rfl
  | defined value => exact Decimal.trim_render Decimal.readable_cell value

/-- The cells of a column that are not empty are those of its defined ratios. -/
theorem filter_text (ratios : List Ratio) :
    (ratios.map text).filter (· ≠ "") = (ratios.filterMap value?).map (text ∘ defined) := by
  induction ratios with
  | nil => rfl
  | cons r ratios ih =>
    have hempty := text_eq_empty_iff r
    cases r with
    | undefined =>
      rw [List.filterMap_cons_none (by rfl), List.map_cons, ← ih]
      exact List.filter_cons_of_neg (by simp [text])
    | defined value =>
      rw [List.filterMap_cons_some (by rfl), List.map_cons, List.map_cons, ← ih]
      exact List.filter_cons_of_pos (by simpa using hempty)

theorem mapM_read_text (values : List Float) :
    (values.map (text ∘ defined)).mapM Numeral.read = .ok values := by
  induction values with
  | nil => rfl
  | cons value values ih =>
    rw [List.map_cons, List.mapM_cons, ih, Function.comp_apply, read_text]
    rfl

end Ratio

/-! ## Tables as records -/

/-- The records of a file as texts, if all of their fields are texts. -/
def Record.texts? (d : Dialect) (bytes : Bytes) : Option (List (List String)) :=
  (records d bytes).mapM fun r => r.fields.mapM Utf8.decode?

namespace Table

/-- The texts in the cells of a row. -/
def cells (row : RatioRow) : List String := row.benchmark :: row.ratios.map Ratio.text

theorem encode_header (labels : List String) :
    ∃ bytes, Record.encode .table (header labels) = 0x62 :: bytes := by
  have hunits : ∃ more, Record.fieldUnits .table (Utf8.encode "benchmark") = [0x62] :: more := by
    refine ⟨(Utf8.encode "enchmark").map fun b => [b], ?_⟩
    decide +kernel
  obtain ⟨more, hmore⟩ := hunits
  have hne : header labels ≠ [[]] := by
    have : Utf8.encode "benchmark" ≠ [] := by decide +kernel
    simp [header, this]
  have hjoin : ∃ more, Record.joinUnits .table (header labels) = [0x62] :: more := by
    cases labels with
    | nil => exact ⟨more, hmore⟩
    | cons label labels =>
      rw [header, List.map_cons, List.map_cons, Record.joinUnits, hmore]
      · exact ⟨_, rfl⟩
      · exact fun h => (by cases h)
  obtain ⟨units, hjoin⟩ := hjoin
  unfold Record.encode Record.units
  rw [if_neg hne, hjoin]
  exact ⟨_, rfl⟩

theorem records_text (labels : List String) (rows : List RatioRow) :
    (Record.records .table (text labels rows)).map (·.fields) =
      header labels :: (goodRows labels.length rows).map record := by
  refine Record.fields_records_encode Dialect.distinct_table ne_nil_of_mem_records ?_
  -- The header's first letter is no byte order mark.
  obtain ⟨bytes, hbytes⟩ := encode_header labels
  rw [List.flatMap_cons, hbytes, List.cons_append]
  simp [Record.byteOrderMark]

theorem mapM_decode?_encode (texts : List String) :
    (texts.map Utf8.encode).mapM Utf8.decode? = some texts := by
  induction texts with
  | nil => rfl
  | cons s texts ih =>
    rw [List.map_cons, List.mapM_cons, ih, Utf8.decode?_encode]
    rfl

theorem texts?_text (labels : List String) (rows : List RatioRow) :
    Record.texts? .table (text labels rows) =
      some (("benchmark" :: labels) :: (goodRows labels.length rows).map cells) := by
  have hmap : Record.texts? .table (text labels rows) =
      ((Record.records .table (text labels rows)).map (·.fields)).mapM
        fun fields => fields.mapM Utf8.decode? := by
    rw [Record.texts?, List.mapM_map]
    rfl
  have hrecords : header labels :: (goodRows labels.length rows).map record =
      ((("benchmark" :: labels) :: (goodRows labels.length rows).map cells)).map
        fun texts => texts.map Utf8.encode := by
    simp [header, record, cells]
  rw [hmap, records_text, hrecords]
  generalize ("benchmark" :: labels) :: (goodRows labels.length rows).map cells = records
  induction records with
  | nil => rfl
  | cons texts records ih =>
    rw [List.map_cons, List.mapM_cons, ih, mapM_decode?_encode]
    rfl

/-! ## The summary of the cells -/

/-- The cells of a column that are not empty, the column of names not counted. -/
def filled (records : List (List String)) (i : Nat) : List String :=
  (records.filterMap fun cells => cells[i + 1]?).filter (· ≠ "")

theorem filled_cells (rows : List RatioRow) (i : Nat) :
    filled (rows.map cells) i =
      ((column rows i).filterMap Ratio.value?).map (Ratio.text ∘ Ratio.defined) := by
  rw [← Ratio.filter_text, filled, column, List.filterMap_map, List.map_filterMap]
  congr 2
  funext row
  simp [cells]

/-- **The summary of the written table.** A written table has a record for its header and one for
each row, which starts with the row's name and has an empty cell for each ratio that is undefined
and no other. The summary has one mean for each label, its count is the number of cells of its
column that are not empty, and its mean is their sum, from zero in the order of the records, divided
by that count. -/
theorem summary_of_write {labels : List String} {rows : List RatioRow} {summary : Summary}
    (h : (write (.direct .unlimited) labels rows).2 = .ok summary) :
    ∃ records,
      Record.texts? .table (write (.direct .unlimited) labels rows).1.received.toList =
        some (("benchmark" :: labels) :: records) ∧
      List.Forall₂ (fun row cells => cells.head? = some row.benchmark ∧
        row.ratios.length = labels.length ∧ cells.length = labels.length + 1 ∧
        ∀ i r, row.ratios[i]? = some r →
          ∃ cell, cells[i + 1]? = some cell ∧ (cell = "" ↔ r = .undefined)) rows records ∧
      summary.map (·.label) = labels ∧
      ∀ i c, summary[i]? = some c → c.count = (filled records i).length ∧
        ∃ values, (filled records i).mapM Numeral.read = .ok values ∧
          c.mean = values.foldl (· + ·) 0.0 / Float.ofNat c.count := by
  obtain ⟨hreceived, hresult⟩ := write_unlimited labels rows
  rw [hresult] at h
  obtain ⟨hwidth, hlabels, hmeans⟩ := Totals.summary_of_rows h
  refine ⟨rows.map cells, ?_, ?_, hlabels, fun i c hc => ?_⟩
  · rw [hreceived, texts?_text, goodRows_eq hwidth]
  · rw [List.forall₂_map_right_iff, List.forall₂_same]
    intro row hrow
    refine ⟨rfl, hwidth row hrow, by simp [cells, hwidth row hrow], fun i r hr => ?_⟩
    exact ⟨r.text, by simp [cells, hr], Ratio.text_eq_empty_iff r⟩
  · obtain ⟨hcount, hmean⟩ := hmeans i c hc
    rw [filled_cells]
    exact ⟨by rw [hcount, List.length_map], _, Ratio.mapM_read_text _, hmean⟩

/-- Names and labels that need quotes, an empty name, and a column with an empty cell. -/
theorem summary_of_write_quoted :
    let labels := ["base", "a,\r"]
    let rows : List RatioRow :=
      [⟨"x,\"\n", [.defined 1.0, .undefined]⟩, ⟨"", [.defined 1.0, .defined 0.5]⟩]
    (write (.direct .unlimited) labels rows).2 =
      .ok [⟨"base", (0.0 + 1.0 + 1.0) / Float.ofNat 2, 2⟩,
        ⟨"a,\r", (0.0 + 0.5) / Float.ofNat 1, 1⟩] ∧
    ∃ records,
      Record.texts? .table (write (.direct .unlimited) labels rows).1.received.toList =
        some (["benchmark", "base", "a,\r"] :: records) ∧
      (filled records 0).length = 2 ∧ (filled records 1).length = 1 := by
  intro labels rows
  have hresult : (write (.direct .unlimited) labels rows).2 =
      .ok [⟨"base", (0.0 + 1.0 + 1.0) / Float.ofNat 2, 2⟩,
        ⟨"a,\r", (0.0 + 0.5) / Float.ofNat 1, 1⟩] := by
    rw [(write_unlimited _ _).2]
    rfl
  obtain ⟨records, hrecords, -, -, hcolumns⟩ := summary_of_write hresult
  exact ⟨hresult, records, hrecords, (hcolumns 0 _ rfl).1.symm, (hcolumns 1 _ rfl).1.symm⟩

end Table

end BenchRatio
