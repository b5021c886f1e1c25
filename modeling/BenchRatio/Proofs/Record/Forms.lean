import BenchRatio.Proofs.Record.Grammar
import Mathlib.Data.List.Forall2

/-!
# The forms of a table

The same records can be written in many ways: a field that needs no quotes may have them, a record
may end with any run of terminators, and empty lines and a byte order mark may come first. The
records that this library writes have one of these forms.

* `FieldForm`, `RecordForm`, `TableForm`, `FileForm`: the ways to write a field, a record, records
  and a file.
* `fields_records_of_form`: **every form of a table reads back as its records**.
* `fields_records_encode`: written records are read back, also with line breaks and quotes inside.
-/

namespace BenchRatio.Record

/-- The ways to write a field: as it is, if it holds no delimiter and no terminator and does not
begin with a quote, or between quotes with each quote doubled. -/
inductive FieldForm (d : Dialect) (field : Bytes) : Bytes → Prop
  | bare (plain : ∀ b ∈ field, Plain d b) (start : field.head? ≠ some d.quote) :
      FieldForm d field field
  | quoted : FieldForm d field (d.quote :: ((doubled d field).flatten ++ [d.quote]))

/-- The ways to write a record: its fields with delimiters between them. A field that is a record of
its own and empty has to be quoted, since an empty line is no record. -/
def RecordForm (d : Dialect) (fields : List Bytes) (line : Bytes) : Prop :=
  ∃ forms, List.Forall₂ (FieldForm d) fields forms ∧ forms ≠ [] ∧ forms ≠ [[]] ∧
    line = [d.delimiter].intercalate forms

/-- Bytes that only end lines. -/
def IsBreak (run : Bytes) : Prop := ∀ b ∈ run, isTerminator b = true

instance : DecidablePred IsBreak := fun run =>
  inferInstanceAs (Decidable (∀ b ∈ run, isTerminator b = true))

/-- The ways to write records: a break after each, which the last one can do without. -/
inductive TableForm (d : Dialect) : List (List Bytes) → Bytes → Prop
  | none : TableForm d [] []
  | last {fields : List Bytes} {line : Bytes} (record : RecordForm d fields line) :
      TableForm d [fields] line
  | more {fields : List Bytes} {line run rest : Bytes} {records : List (List Bytes)}
      (record : RecordForm d fields line) (ends : IsBreak run) (nonempty : run ≠ [])
      (others : TableForm d records rest) : TableForm d (fields :: records) (line ++ (run ++ rest))

/-- The ways to write a file: records after empty lines, with a byte order mark before everything or
no beginning that is one. -/
def FileForm (d : Dialect) (records : List (List Bytes)) (bytes : Bytes) : Prop :=
  ∃ gap table, IsBreak gap ∧ TableForm d records table ∧
    (bytes = byteOrderMark ++ (gap ++ table) ∨
      (bytes = gap ++ table ∧ ¬ byteOrderMark <+: gap ++ table))

variable {d : Dialect}

/-! ## Fields -/

/-- A form of a field spells the field, if no quote follows it. -/
theorem FieldForm.spelling {next : Option UInt8} (hnext : next ≠ some d.quote) {field form : Bytes}
    (h : FieldForm d field form) : FieldSpelling d next form field := by
  have hhead : ∀ x : Bytes, x.head? ≠ some d.quote → (x ++ next.toList).head? ≠ some d.quote := by
    intro x hx
    cases x with
    | nil =>
      cases next with
      | none => simp
      | some b => simpa using hnext
    | cons b x => simpa using hx
  cases h with
  | bare plain start => exact .bare plain (hhead field start)
  | quoted =>
    have closed : FieldSpelling d next
        (d.quote :: ((doubled d field).flatten ++ d.quote :: [])) (field ++ []) :=
      .quoted (by simp) (hhead [] (by simp))
    rwa [List.append_nil] at closed

/-- A form of a field begins with no terminator. -/
theorem FieldForm.head_not_terminator (hd : d.Distinct) {field : Bytes} {b : UInt8} {form : Bytes}
    (h : FieldForm d field (b :: form)) : isTerminator b = false := by
  cases h with
  | bare plain start => exact (plain b List.mem_cons_self).2
  | quoted => exact hd.quote

/-- A written field has one of the forms. -/
theorem fieldForm_fieldUnits (field : Bytes) : FieldForm d field (fieldUnits d field).flatten := by
  unfold fieldUnits
  by_cases h : needsQuotes d field = true
  · have hunits : ([d.quote] :: (doubled d field ++ [[d.quote]])).flatten =
        d.quote :: ((doubled d field).flatten ++ [d.quote]) := by simp
    rw [if_pos h, hunits]
    exact .quoted
  · rw [if_neg h, ← List.flatMap_def, List.flatMap_singleton']
    have hb : ∀ b ∈ field, b ≠ d.delimiter ∧ b ≠ d.quote ∧ isTerminator b = false := by
      simpa [needsQuotes] using h
    refine .bare (fun b hmem => ⟨(hb b hmem).1, (hb b hmem).2.2⟩) fun hq => ?_
    exact (hb d.quote (List.mem_of_head? hq)).2.1 rfl

/-! ## Records -/

/-- Forms of fields with delimiters between them spell a record. -/
theorem lineSpelling_intercalate (hd : d.Distinct) {stop : Option UInt8}
    (hstop : stop ≠ some d.quote) {fields forms : List Bytes}
    (h : List.Forall₂ (FieldForm d) fields forms) (hne : forms ≠ []) :
    LineSpelling d stop ([d.delimiter].intercalate forms) fields := by
  induction h with
  | nil => exact absurd rfl hne
  | @cons field form fields forms hfield hmore ih =>
    cases hmore with
    | nil =>
      rw [List.intercalate_singleton]
      exact .last (hfield.spelling hstop)
    | cons hsecond hmore =>
      rw [List.intercalate_cons_cons, List.append_assoc]
      have hnext : some d.delimiter ≠ some d.quote := fun h => hd.apart (Option.some.inj h)
      exact .more (hfield.spelling hnext) (ih (by simp))

theorem RecordForm.spelling (hd : d.Distinct) {stop : Option UInt8} (hstop : stop ≠ some d.quote)
    {fields : List Bytes} {line : Bytes} (h : RecordForm d fields line) :
    LineSpelling d stop line fields := by
  obtain ⟨forms, hforms, hne, -, rfl⟩ := h
  exact lineSpelling_intercalate hd hstop hforms hne

/-- A form of a record is no empty line, and begins with none. -/
theorem RecordForm.startsLine (hd : d.Distinct) {fields : List Bytes} {line : Bytes}
    (h : RecordForm d fields line) : StartsLine line := by
  obtain ⟨forms, hforms, hne, hvisible, rfl⟩ := h
  cases hforms with
  | nil => exact absurd rfl hne
  | @cons field form fields forms hfield hmore =>
    cases form with
    | cons b form =>
      refine ⟨b, ?_, hfield.head_not_terminator hd⟩
      cases forms with
      | nil => simp [List.intercalate_singleton]
      | cons second forms => simp [List.intercalate_cons_cons]
    | nil =>
      -- An empty field at the start has a delimiter after it.
      cases forms with
      | nil => exact absurd rfl hvisible
      | cons second forms => exact ⟨d.delimiter, by simp [List.intercalate_cons_cons], hd.delimiter⟩

theorem flatten_joinUnits (fields : List Bytes) :
    (joinUnits d fields).flatten =
      [d.delimiter].intercalate (fields.map fun field => (fieldUnits d field).flatten) := by
  induction fields using joinUnits.induct with
  | case1 => rfl
  | case2 field => simp [joinUnits, List.intercalate_singleton]
  | case3 field more hmore ih =>
    have hne : more.map (fun field => (fieldUnits d field).flatten) ≠ [] := by
      intro hnil
      exact hmore (List.map_eq_nil_iff.mp hnil)
    rw [List.map_cons, List.intercalate_cons_of_ne_nil hne, ← ih, joinUnits]
    · simp
    · assumption

/-- A written record has one of the forms, with a line feed behind it. -/
theorem exists_recordForm_encode {fields : List Bytes} (hne : fields ≠ []) :
    ∃ line, encode d fields = line ++ [0x0A] ∧ RecordForm d fields line := by
  by_cases hempty : fields = [[]]
  · subst hempty
    refine ⟨[d.quote, d.quote], by simp [encode, units], [[d.quote, d.quote]], ?_, by simp, by simp,
      List.intercalate_singleton.symm⟩
    exact .cons FieldForm.quoted .nil
  · refine ⟨(joinUnits d fields).flatten, by simp [encode, units, hempty], _, ?_, ?_, ?_,
      flatten_joinUnits fields⟩
    · rw [List.forall₂_map_right_iff, List.forall₂_same]
      exact fun field _ => fieldForm_fieldUnits field
    · simpa using hne
    · -- Only an empty field without quotes has nothing written.
      intro hforms
      obtain ⟨field, rfl, hfield⟩ := List.map_eq_singleton_iff.mp hforms
      have hform := fieldForm_fieldUnits (d := d) field
      rw [hfield] at hform
      cases hform
      exact hempty rfl

/-! ## Tables -/

theorem TableForm.spelling (hd : d.Distinct) {records : List (List Bytes)} {table : Bytes}
    (h : TableForm d records table) {gap : Bytes} (hgap : IsBreak gap) :
    Spelling d (gap ++ table) records := by
  induction h generalizing gap with
  | none =>
    rw [List.append_nil]
    exact .blank hgap
  | last record => exact .last hgap (record.startsLine hd) (record.spelling hd (by simp))
  | @more fields line run rest records record ends nonempty _ ih =>
    -- The first byte of a break ends the record, the others are empty lines before the next one.
    obtain ⟨stop, run, rfl⟩ := List.exists_cons_of_ne_nil nonempty
    obtain ⟨hends, hrun⟩ := List.forall_mem_cons.mp ends
    have hdelimiter : stop ≠ d.delimiter := fun h => by simp [h, hd.delimiter] at hends
    have hquote : some stop ≠ some d.quote := fun h => by
      simp [Option.some.inj h, hd.quote] at hends
    exact .more hgap (record.startsLine hd) (record.spelling hd hquote) hends hdelimiter (ih hrun)

/-- **Every form of a table reads back.** Whatever quotes, breaks, empty lines and byte order mark
are chosen, the scanner finds the records that were written. -/
theorem fields_records_of_form (hd : d.Distinct) {rs : List (List Bytes)} {bytes : Bytes}
    (h : FileForm d rs bytes) : (records d bytes).map (·.fields) = rs := by
  rw [fields_records_eq_iff]
  obtain ⟨gap, table, hgap, htable, rfl | ⟨rfl, hmark⟩⟩ := h
  · exact htable.spelling hd hgap
  · rw [withoutMark_eq hmark]
    exact htable.spelling hd hgap

theorem tableForm_encode {rs : List (List Bytes)} (hne : ∀ fields ∈ rs, fields ≠ []) :
    TableForm d rs (rs.flatMap (encode d)) := by
  induction rs with
  | nil => exact .none
  | cons fields rs ih =>
    obtain ⟨hfields, hrest⟩ := List.forall_mem_cons.mp hne
    obtain ⟨line, hline, hform⟩ := exists_recordForm_encode (d := d) hfields
    have hfeed : IsBreak [0x0A] := by simp [IsBreak, isTerminator]
    rw [List.flatMap_cons, hline, List.append_assoc]
    exact .more hform hfeed (by simp) (ih hrest)

/-- **Written records read back.** Whatever the fields hold, the scanner finds the records that were
written, provided that no byte order mark is taken off in front. -/
theorem fields_records_encode (hd : d.Distinct) {rs : List (List Bytes)}
    (hne : ∀ fields ∈ rs, fields ≠ [])
    (hmark : ¬ byteOrderMark <+: rs.flatMap (encode d)) :
    (records d (rs.flatMap (encode d))).map (·.fields) = rs :=
  fields_records_of_form hd
    ⟨[], _, by simp [IsBreak], tableForm_encode hne, .inr ⟨rfl, hmark⟩⟩

end BenchRatio.Record
