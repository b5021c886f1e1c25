import BenchRatio.Proofs.Measurements.Reading
import BenchRatio.Proofs.Record.Forms

/-!
# Reading a table of texts

How a table of texts is written does not matter to its reader: the outcome is that of the first two
texts of each data row. Neither do the header, further fields and the two bytes of the dialect.

* `RowMeasures`, `RowLacks`: what the texts of a data row give, and why they give nothing.
* `read_of_texts`: the outcome of reading records whose fields are texts.
* `readRecords_congr`: records are read alike if their first two texts are the same.
* `read_of_form`: **every form of a table reads the same**.
-/

namespace BenchRatio

open Record

/-! ## Rows of texts -/

/-- The name and the measurement in a data row; further fields do not count. -/
inductive RowMeasures : List String → String × Float → Prop
  | measured {name raw : String} {more : List String} {value : Float}
      (numeral : Numeral.read (Blank.trim raw) = .ok value) :
      RowMeasures (name :: raw :: more) (name, value)

/-- Why a data row has no measurement: there is no second field, or it holds no numeral. -/
inductive RowLacks : List String → RowDefect → Prop
  | value {name : String} : RowLacks [name] (.missingValue name)
  | numeral {name raw : String} {more : List String} {defect : Numeral.Defect}
      (malformed : Numeral.read (Blank.trim raw) = .error defect) :
      RowLacks (name :: raw :: more) (.notNumber name raw defect)

theorem RowMeasures.unique {texts : List String} {p p' : String × Float} (h : RowMeasures texts p)
    (h' : RowMeasures texts p') : p = p' := by
  cases h with
  | measured numeral =>
    cases h' with
    | measured numeral' => rw [Except.ok.inj (numeral.symm.trans numeral')]

theorem RowLacks.unique {texts : List String} {defect defect' : RowDefect}
    (h : RowLacks texts defect) (h' : RowLacks texts defect') : defect = defect' := by
  cases h with
  | value =>
    cases h'
    rfl
  | numeral malformed =>
    cases h' with
    | numeral malformed' => rw [Except.error.inj (malformed.symm.trans malformed')]

theorem RowLacks.not_measures {texts : List String} {defect : RowDefect} {p : String × Float}
    (h : RowLacks texts defect) : ¬ RowMeasures texts p := by
  intro h'
  cases h with
  | value => cases h'
  | numeral malformed =>
    cases h' with
    | measured numeral =>
      rw [malformed] at numeral
      cases numeral

/-- Records and the texts from which their fields were written. -/
def Record.Spelled (records : List Raw) (table : List (List String)) : Prop :=
  records.map (·.fields) = table.map (·.map Utf8.encode)

namespace Record

/-- Only the first two texts of a row count. -/
theorem row_take (texts : List String) : row (texts.take 2) = row texts := by
  match texts with
  | [] | [_] | _ :: _ :: _ => rfl

theorem isText_map_encode (texts : List String) : IsText (texts.map Utf8.encode) := by
  intro field hfield
  obtain ⟨s, -, rfl⟩ := List.mem_map.mp hfield
  exact ⟨s, Utf8.decode?_encode s⟩

theorem measures_map_encode {texts : List String} {p : String × Float}
    (h : Measures (texts.map Utf8.encode) p) : RowMeasures texts p := by
  obtain ⟨-, field, second, more, raw, hsplit, hname, hraw, hread⟩ := h
  obtain ⟨name, rest, rfl, rfl, hrest⟩ := List.map_eq_cons_iff.mp hsplit
  obtain ⟨raw', rest, rfl, rfl, rfl⟩ := List.map_eq_cons_iff.mp hrest
  rw [Utf8.decode?_encode, Option.some_inj] at hname hraw
  subst hname hraw
  exact .measured hread

/-- Texts are text, so only a data row can be defective. -/
theorem defective_map_encode {i : Nat} {start : Mark} {texts : List String} {defect : RowDefect}
    (h : Defective i start (texts.map Utf8.encode) defect) : 1 ≤ i ∧ RowLacks texts defect := by
  cases h with
  | @notText good more field split before here =>
    have hmem : field ∈ texts.map Utf8.encode := by simp [split]
    exact absurd ⟨field, hmem, here⟩ (isText_map_encode texts).not_exists
  | missingValue row split first =>
    obtain ⟨name, rfl, rfl⟩ := List.map_eq_singleton_iff.mp split
    rw [Utf8.decode?_encode, Option.some_inj] at first
    subst first
    exact ⟨row, .value⟩
  | notNumber row text split first value malformed =>
    obtain ⟨name, rest, rfl, rfl, hrest⟩ := List.map_eq_cons_iff.mp split
    obtain ⟨raw', rest, rfl, rfl, rfl⟩ := List.map_eq_cons_iff.mp hrest
    rw [Utf8.decode?_encode, Option.some_inj] at first value
    subst first value
    exact ⟨row, .numeral malformed⟩

/-- A data row that is not bad has a measurement. -/
theorem exists_rowMeasures {i : Nat} (hi : 1 ≤ i) {texts : List String} (hne : texts ≠ [])
    (h : ¬ Bad i (texts.map Utf8.encode)) : ∃ p, RowMeasures texts p := by
  match texts with
  | [] => exact absurd rfl hne
  | [name] => exact absurd (.inr ⟨hi, .inl (by simp)⟩) h
  | name :: raw :: more =>
    cases hread : Numeral.read (Blank.trim raw) with
    | ok value => exact ⟨_, .measured hread⟩
    | error defect =>
      refine absurd (.inr ⟨hi, .inr ⟨Utf8.encode raw, raw, rfl, Utf8.decode?_encode raw, ?_⟩⟩) h
      intro value hvalue
      rw [hread] at hvalue
      cases hvalue

theorem decodeFields_map_encode (i : Nat) (texts : List String) :
    decodeFields i (texts.map Utf8.encode) = .ok texts := by
  induction texts generalizing i with
  | nil => rfl
  | cons s texts ih =>
    rw [List.map_cons, decodeFields, Utf8.decode?_encode]
    simp only [ih, Except.map]

section Spelled

variable {records : List Raw} {table : List (List String)}

theorem Spelled.exists_texts (h : Spelled records table) {i : Nat} {r : Raw}
    (hr : records[i]? = some r) : ∃ texts, table[i]? = some texts ∧
      r.fields = texts.map Utf8.encode := by
  have hi := congrArg (fun l => l[i]?) h
  simp only [List.getElem?_map, hr, Option.map_some] at hi
  obtain ⟨texts, htexts, hfields⟩ := Option.map_eq_some_iff.mp hi.symm
  exact ⟨texts, htexts, hfields.symm⟩

theorem Spelled.exists_record (h : Spelled records table) {i : Nat} {texts : List String}
    (ht : table[i]? = some texts) : ∃ r, records[i]? = some r ∧
      r.fields = texts.map Utf8.encode := by
  have hi := congrArg (fun l => l[i]?) h
  simp only [List.getElem?_map, ht, Option.map_some] at hi
  exact Option.map_eq_some_iff.mp hi

theorem Spelled.measures (h : Spelled records table) {pairs : List (String × Float)}
    (hpairs : List.Forall₂ (fun r p => Measures r.fields p) (records.drop 1) pairs) :
    List.Forall₂ RowMeasures (table.drop 1) pairs := by
  have hdrop : (records.drop 1).map (·.fields) = (table.drop 1).map (·.map Utf8.encode) := by
    rw [List.map_drop, h, List.map_drop]
  have hfields : List.Forall₂ (fun fields p => Measures fields p)
      ((table.drop 1).map (·.map Utf8.encode)) pairs := by
    rw [← hdrop, List.forall₂_map_left_iff]
    exact hpairs
  rw [List.forall₂_map_left_iff] at hfields
  exact hfields.imp fun _ _ => measures_map_encode

/-- Records that were written from texts are these texts. -/
theorem Spelled.text_eq (h : Spelled records table) :
    List.Forall₂ (fun r texts => text r = .ok texts) records table := by
  rw [Spelled, ← List.forall₂_eq_eq_eq, List.forall₂_map_left_iff,
    List.forall₂_map_right_iff] at h
  refine h.imp fun r texts hfields => ?_
  rw [text, hfields, decodeFields_map_encode]

end Spelled

end Record

namespace Measurements

/-- The outcome of reading records of texts: the last measurement of each name, or the first data
row that lacks one. -/
theorem read_of_texts {d : Dialect} (origin : String) {table : List (List String)} {bytes : Bytes}
    (h : Spelled (records d bytes) table) :
    let outcome := (read d origin { bytes }).result
    (∃ pairs, List.Forall₂ RowMeasures (table.drop 1) pairs ∧
      outcome = .ok (SortedMap.ofList pairs)) ∨
    ∃ good bad more defect, table.drop 1 = good ++ bad :: more ∧
      (∀ row ∈ good, ∃ p, RowMeasures row p) ∧ RowLacks bad defect ∧
      outcome = .error (.badRow origin (good.length + 2) defect) := by
  rcases read_cases d origin bytes with
    ⟨-, pairs, hpairs, hok⟩ | ⟨i, defect, ⟨⟨r, hr, hdefect⟩, hbefore⟩, herr⟩
  · exact .inl ⟨pairs, h.measures hpairs, hok⟩
  · obtain ⟨texts, htexts, hfields⟩ := h.exists_texts hr
    rw [hfields] at hdefect
    obtain ⟨hpos, hlacks⟩ := defective_map_encode hdefect
    obtain ⟨j, rfl⟩ := Nat.exists_eq_add_of_le hpos
    rw [← List.getElem?_drop] at htexts
    obtain ⟨hj, hbad⟩ := List.getElem?_eq_some_iff.mp htexts
    refine .inr ⟨(table.drop 1).take j, texts, (table.drop 1).drop (j + 1), defect, ?_, ?_, hlacks,
      ?_⟩
    · rw [← hbad, ← List.drop_eq_getElem_cons hj, List.take_append_drop]
    · -- The rows before it are good ones.
      intro row hgood
      obtain ⟨k, hk, hrow⟩ := List.mem_take_iff_getElem.mp hgood
      have hat : table[1 + k]? = some row := by
        rw [← List.getElem?_drop, List.getElem?_eq_some_iff]
        exact ⟨by omega, hrow⟩
      obtain ⟨s, hs, hsfields⟩ := h.exists_record hat
      have hne := fields_ne_nil_of_mem_records (List.mem_of_getElem? hs)
      have hnot := hbefore (1 + k) s (by omega) hs
      rw [hsfields] at hne hnot
      exact exists_rowMeasures (Nat.le_add_right 1 k) (by simpa using hne) hnot
    · rw [List.length_take, Nat.min_eq_left (Nat.le_of_lt hj), herr, Nat.add_comm 1 j]

/-! ## Records with the same first two texts -/

/-- Two records are texts, and their first two are the same. -/
def SameStart (r r' : Raw) : Prop :=
  ∃ texts texts', text r = .ok texts ∧ text r' = .ok texts' ∧ texts.take 2 = texts'.take 2

theorem readRows_congr (origin : String) {rows rows' : List Raw}
    (h : List.Forall₂ SameStart rows rows') (m : Measurements) (n : Nat) :
    readRows origin m n rows = readRows origin m n rows' := by
  induction h generalizing m n with
  | nil => rfl
  | @cons r r' rows rows' hr _ ih =>
    obtain ⟨texts, texts', htexts, htexts', hsame⟩ := hr
    have hrow : row texts = row texts' := by rw [← row_take texts, hsame, row_take]
    rw [readRows, readRows, htexts, htexts']
    simp only [hrow, ih]

section

variable {records records' : List Raw} {table table' : List (List String)}

/-- Of records that are texts only those below the header matter. -/
theorem readRecords_eq (origin : String) (h : Spelled records table) :
    readRecords origin records = readRows origin empty 2 (records.drop 1) := by
  cases h.text_eq with
  | nil => rfl
  | cons hheader _ =>
    rw [readRecords, hheader]
    rfl

theorem sameStart_of_take (h : List.Forall₂ (fun r texts => text r = .ok texts) records table)
    (h' : List.Forall₂ (fun r texts => text r = .ok texts) records' table')
    (hsame : table.map (List.take 2) = table'.map (List.take 2)) :
    List.Forall₂ SameStart records records' := by
  induction h generalizing records' table' with
  | nil =>
    obtain rfl : table' = [] := by simpa using hsame.symm
    cases h'
    exact .nil
  | cons hr _ ih =>
    cases h' with
    | nil => simp at hsame
    | cons hr' hmore =>
      obtain ⟨htake, hrest⟩ := List.cons.inj hsame
      exact .cons ⟨_, _, hr, hr', htake⟩ (ih hmore hrest)

/-- Records are read alike if they are texts and the first two below the headers are the same. -/
theorem readRecords_congr (origin : String) (h : Spelled records table)
    (h' : Spelled records' table')
    (hsame : (table.drop 1).map (List.take 2) = (table'.drop 1).map (List.take 2)) :
    readRecords origin records = readRecords origin records' := by
  rw [readRecords_eq origin h, readRecords_eq origin h']
  exact readRows_congr origin (sameStart_of_take (List.forall₂_drop 1 h.text_eq)
    (List.forall₂_drop 1 h'.text_eq) hsame) empty 2

end

/-! ## Forms of a table -/

/-- **Every form of a table reads the same.** Reading any form of a table of texts gives the last
measurement of each name, or the first data row that lacks one and what it lacks; rows count from
one, the header is the first, and breaks within a field or between records do not count. Tables with
the same first two texts in their data rows are read alike, notices included: neither the forms, nor
the headers, nor further fields, nor the two bytes of the dialects matter. -/
theorem read_of_form (origin : String) :
    (∀ {d : Dialect} {table : List (List String)} {bytes : Bytes}, d.Distinct →
      FileForm d (table.map (·.map Utf8.encode)) bytes →
      let outcome := (read d origin { bytes }).result
      (∃ pairs m, List.Forall₂ RowMeasures (table.drop 1) pairs ∧ outcome = .ok m ∧
        ∀ name value, m.get? name = some value ↔ LastIn pairs name value) ∨
      ∃ good bad more defect, table.drop 1 = good ++ bad :: more ∧
        (∀ row ∈ good, ∃ p, RowMeasures row p) ∧ RowLacks bad defect ∧
        outcome = .error (.badRow origin (good.length + 2) defect)) ∧
    ∀ {d d' : Dialect} {table table' : List (List String)} {bytes bytes' : Bytes}, d.Distinct →
      d'.Distinct → FileForm d (table.map (·.map Utf8.encode)) bytes →
      FileForm d' (table'.map (·.map Utf8.encode)) bytes' →
      (table.drop 1).map (List.take 2) = (table'.drop 1).map (List.take 2) →
      read d origin { bytes } = read d' origin { bytes := bytes' } := by
  refine ⟨fun hd hform => ?_, fun hd hd' hform hform' hsame => ?_⟩
  · rcases read_of_texts origin (fields_records_of_form hd hform) with
      ⟨pairs, hpairs, hok⟩ | hlacks
    · exact .inl ⟨pairs, _, hpairs, hok, SortedMap.get?_ofList_eq_some_iff pairs⟩
    · exact .inr hlacks
  · rw [read_eq, read_eq]
    exact readRecords_congr origin (fields_records_of_form hd hform)
      (fields_records_of_form hd' hform') hsame

/-- A delimiter that is the first byte of a letter, which is quoted for it with a doubled quote next
to it, a byte order mark and empty lines, against the format of written tables. -/
theorem read_of_form_split_letter :
    let d : Dialect := ⟨0xC3, 0x7C⟩
    let table := [["h"], ["é|", "1"]]
    let other := [["x", "y"], ["é|", "1", "z"]]
    let bytes : Bytes := [0xEF, 0xBB, 0xBF, 0x0D, 0x68, 0x0D, 0x0A, 0x0A, 0x7C, 0xC3, 0xA9, 0x7C,
      0x7C, 0x7C, 0xC3, 0x31]
    let bytes' : Bytes := [0x78, 0x2C, 0x79, 0x0D, 0xC3, 0xA9, 0x7C, 0x2C, 0x22, 0x31, 0x22, 0x2C,
      0x7A, 0x0A]
    d.Distinct ∧ FileForm d (table.map (·.map Utf8.encode)) bytes ∧
      FileForm .table (other.map (·.map Utf8.encode)) bytes' ∧
      read d "t" { bytes } = read .table "t" { bytes := bytes' } ∧
      ∃ m, (read d "t" { bytes }).result = .ok m ∧ m.get? "é|" = some 1.0 := by
  intro d table other bytes bytes'
  have hd : d.Distinct := ⟨by decide, by decide, by decide⟩
  have htable : table.map (·.map Utf8.encode) = [[[0x68]], [[0xC3, 0xA9, 0x7C], [0x31]]] := by
    decide +kernel
  have hother : other.map (·.map Utf8.encode) =
      [[[0x78], [0x79]], [[0xC3, 0xA9, 0x7C], [0x31], [0x7A]]] := by
    decide +kernel
  have bare : ∀ (d : Dialect) (field : Bytes),
      (∀ b ∈ field, Plain d b) ∧ field.head? ≠ some d.quote → FieldForm d field field :=
    fun _ _ h => .bare h.1 h.2
  have hform : FileForm d (table.map (·.map Utf8.encode)) bytes := by
    rw [htable]
    have first : RecordForm d [[0x68]] [0x68] :=
      ⟨_, .cons (bare _ _ (by decide +kernel)) .nil, by decide, by decide, rfl⟩
    have second : RecordForm d [[0xC3, 0xA9, 0x7C], [0x31]]
        [0x7C, 0xC3, 0xA9, 0x7C, 0x7C, 0x7C, 0xC3, 0x31] :=
      ⟨_, .cons .quoted (.cons (bare _ _ (by decide +kernel)) .nil), by decide, by decide, rfl⟩
    have gap : IsBreak [0x0D] := by decide +kernel
    have lines : IsBreak [0x0D, 0x0A, 0x0A] := by decide +kernel
    exact ⟨_, _, gap, .more first lines (by decide) (.last second), .inl rfl⟩
  have hform' : FileForm .table (other.map (·.map Utf8.encode)) bytes' := by
    rw [hother]
    have first : RecordForm .table [[0x78], [0x79]] [0x78, 0x2C, 0x79] :=
      ⟨_, .cons (bare _ _ (by decide +kernel)) (.cons (bare _ _ (by decide +kernel)) .nil),
        by decide, by decide, rfl⟩
    have second : RecordForm .table [[0xC3, 0xA9, 0x7C], [0x31], [0x7A]]
        [0xC3, 0xA9, 0x7C, 0x2C, 0x22, 0x31, 0x22, 0x2C, 0x7A] :=
      ⟨_, .cons (bare _ _ (by decide +kernel)) (.cons .quoted
        (.cons (bare _ _ (by decide +kernel)) .nil)), by decide, by decide, rfl⟩
    have return' : IsBreak [0x0D] := by decide +kernel
    have feed : IsBreak [0x0A] := by decide +kernel
    exact ⟨[], _, List.forall_mem_nil _,
      .more first return' (by decide) (.more second feed (by decide) .none), .inr ⟨rfl, by decide⟩⟩
  obtain ⟨hread, hsame⟩ := read_of_form "t"
  refine ⟨hd, hform, hform', hsame hd Dialect.distinct_table hform hform' rfl, ?_⟩
  have hnumeral : Numeral.read (Blank.trim "1") = .ok 1.0 := by decide +kernel
  rcases hread hd hform with ⟨pairs, m, hpairs, hm, hget⟩ | ⟨good, bad, _, _, hrows, -, hlacks, -⟩
  · refine ⟨m, hm, (hget _ _).mpr ?_⟩
    cases hpairs with
    | cons hrow hnil =>
      cases hnil
      cases hrow with
      | measured hvalue =>
        rw [hnumeral] at hvalue
        cases hvalue
        exact ⟨[], [], rfl, by simp⟩
  · -- The only data row has a measurement.
    obtain ⟨rfl, rfl⟩ : good = [] ∧ bad = ["é|", "1"] := by
      cases good with
      | nil => exact ⟨rfl, (List.cons.inj hrows).1.symm⟩
      | cons row good => simp [table] at hrows
    cases hlacks with
    | numeral malformed =>
      rw [hnumeral] at malformed
      cases malformed

end Measurements

end BenchRatio
