import BenchRatio.Measurements.Reading
import BenchRatio.Proofs.Record.Grammar
import BenchRatio.Proofs.SortedMap
import Mathlib.Data.List.Forall2

/-!
# What reading measurements gives

A record is judged by itself: `Bad` says which ones rule the file out, `Defective` what is said of
such a record and `Measures` what a good data row gives. Reading stops at the first bad record and
otherwise keeps the last measurement of each name.

* `readRows_append`: good rows only add their measurements.
* `readRows_cases`, `read_cases`: the outcome of reading, by whether some record is bad.
* `read_outcome`: the same for the records that the grammar gives, with the map's content.
-/

namespace BenchRatio

namespace Record

/-! ## Judging one record -/

/-- Every field is text by itself. -/
def IsText (fields : List Bytes) : Prop := ∀ field ∈ fields, ∃ s, Utf8.decode? field = some s

theorem IsText.not_exists {fields : List Bytes} (h : IsText fields) :
    ¬ ∃ field ∈ fields, Utf8.decode? field = none := by
  rintro ⟨field, hmem, hnone⟩
  obtain ⟨s, hs⟩ := h field hmem
  rw [hs] at hnone
  cases hnone

/-- The record with the number `i`, counted from zero, rules its file out: some field is no text
by itself, or it is a data row without a second field, or with one that is no numeral. -/
def Bad (i : Nat) (fields : List Bytes) : Prop :=
  (∃ field ∈ fields, Utf8.decode? field = none) ∨
    (1 ≤ i ∧ (fields.length < 2 ∨ ∃ field raw, fields[1]? = some field ∧
      Utf8.decode? field = some raw ∧ ∀ value, Numeral.read (Blank.trim raw) ≠ .ok value))

/-- What is said of a bad record with the number `i` that starts at `start`: first that it is no
text, then that a value is missing, then that the value is no numeral. -/
inductive Defective (i : Nat) (start : Mark) (fields : List Bytes) : RowDefect → Prop
  | notText {good more : List Bytes} {field : Bytes} (split : fields = good ++ field :: more)
      (before : IsText good) (here : Utf8.decode? field = none) :
      Defective i start fields (.notText i start good.length (Utf8.validLength field))
  | missingValue {field : Bytes} {name : String} (row : 1 ≤ i) (split : fields = [field])
      (first : Utf8.decode? field = some name) : Defective i start fields (.missingValue name)
  | notNumber {field second : Bytes} {more : List Bytes} {name raw : String}
      {defect : Numeral.Defect} (row : 1 ≤ i) (text : IsText fields)
      (split : fields = field :: second :: more) (first : Utf8.decode? field = some name)
      (value : Utf8.decode? second = some raw)
      (malformed : Numeral.read (Blank.trim raw) = .error defect) :
      Defective i start fields (.notNumber name raw defect)

/-- The name and the measurement that a data row gives; the name is taken as it stands. -/
def Measures (fields : List Bytes) (p : String × Float) : Prop :=
  IsText fields ∧ ∃ field second more raw, fields = field :: second :: more ∧
    Utf8.decode? field = some p.1 ∧ Utf8.decode? second = some raw ∧
      Numeral.read (Blank.trim raw) = .ok p.2

theorem Defective.bad {i : Nat} {start : Mark} {fields : List Bytes} {defect : RowDefect}
    (h : Defective i start fields defect) : Bad i fields := by
  cases h with
  | notText split _ here => exact .inl ⟨_, by rw [split]; simp, here⟩
  | missingValue row split => exact .inr ⟨row, .inl (by simp [split])⟩
  | notNumber row _ split _ value malformed =>
    refine .inr ⟨row, .inr ⟨_, _, by rw [split]; rfl, value, fun v hv => ?_⟩⟩
    rw [malformed] at hv
    cases hv

theorem decodeFields_cases (i : Nat) (fields : List Bytes) :
    (∃ texts, decodeFields i fields = .ok texts ∧
      List.Forall₂ (fun field s => Utf8.decode? field = some s) fields texts) ∨
    ∃ good field more, fields = good ++ field :: more ∧ IsText good ∧
      Utf8.decode? field = none ∧
      decodeFields i fields = .error (i + good.length, Utf8.validLength field) := by
  induction fields generalizing i with
  | nil => exact .inl ⟨[], rfl, .nil⟩
  | cons field fields ih =>
    rw [decodeFields]
    cases hfield : Utf8.decode? field with
    | none => exact .inr ⟨[], field, fields, rfl, by simp [IsText], hfield, rfl⟩
    | some s =>
      rcases ih (i + 1) with ⟨texts, hok, htexts⟩ | ⟨good, bad, more, rfl, hgood, hbad, herr⟩
      · exact .inl ⟨s :: texts, by simp [hok, Except.map], .cons hfield htexts⟩
      · refine .inr ⟨field :: good, bad, more, rfl, ?_, hbad, ?_⟩
        · simpa [IsText, hfield] using hgood
        · simp only [herr, Except.map, List.length_cons]
          congr 2
          omega

/-- The name and the measurement of a data row, or its defect. -/
def entry (r : Raw) : Except RowDefect (String × Float) :=
  match text r with
  | .error defect => .error defect
  | .ok fields => row fields

theorem text_cases (r : Raw) :
    (∃ texts, text r = .ok texts ∧
      List.Forall₂ (fun field s => Utf8.decode? field = some s) r.fields texts) ∨
    ∃ defect, text r = .error defect ∧ Defective r.number r.start r.fields defect := by
  unfold text
  rcases decodeFields_cases 0 r.fields with ⟨texts, hok, htexts⟩ |
    ⟨good, field, more, hsplit, hgood, hfield, herr⟩
  · exact .inl ⟨texts, by rw [hok], htexts⟩
  · rw [herr, Nat.zero_add]
    exact .inr ⟨_, rfl, .notText hsplit hgood hfield⟩

theorem isText_of_forall₂ {fields : List Bytes} {texts : List String}
    (h : List.Forall₂ (fun field s => Utf8.decode? field = some s) fields texts) :
    IsText fields := by
  induction h with
  | nil => simp [IsText]
  | cons hfield _ ih => simpa [IsText, hfield] using ih

/-- A data row is good and gives its measurement, or bad and gives its defect. -/
theorem entry_cases (r : Raw) (hrow : 1 ≤ r.number) (hne : r.fields ≠ []) :
    (∃ p, entry r = .ok p ∧ Measures r.fields p ∧ ¬ Bad r.number r.fields) ∨
    ∃ defect, entry r = .error defect ∧ Defective r.number r.start r.fields defect := by
  unfold entry
  rcases text_cases r with ⟨texts, hok, htexts⟩ | ⟨defect, herr, hdefect⟩
  · rw [hok]
    simp only []
    have htext := isText_of_forall₂ htexts
    have hgood := htext.not_exists
    match hfields : r.fields, texts, htexts with
    | [], _, _ => exact absurd hfields hne
    | [field], [name], .cons hname _ =>
      exact .inr ⟨_, rfl, .missingValue hrow rfl hname⟩
    | field :: second :: more, name :: raw :: others, .cons hname (.cons hraw hmore) =>
      rw [hfields] at htext hgood
      rw [row]
      cases hread : Numeral.read (Blank.trim raw) with
      | error cause => exact .inr ⟨_, rfl, .notNumber hrow htext rfl hname hraw hread⟩
      | ok value =>
        refine .inl ⟨_, rfl, ⟨htext, field, second, more, raw, rfl, hname, hraw, hread⟩, ?_⟩
        rintro (h | ⟨-, h | ⟨_, _, hsecond, hdecode, hbad⟩⟩)
        · exact hgood h
        · simp only [List.length_cons] at h
          omega
        · obtain rfl : second = _ := by simpa using hsecond
          rw [hraw] at hdecode
          cases hdecode
          exact hbad value hread
  · rw [herr]
    exact .inr ⟨defect, rfl, hdefect⟩

end Record

/-! ## Reading one record after the other -/

namespace Measurements

open Record

/-- Stores the measurements of data rows one after the other. -/
def store (m : Measurements) (pairs : List (String × Float)) : Measurements :=
  pairs.foldl (fun m p => m.insert p.1 p.2) m

/-- Good rows only add their measurements. -/
theorem readRows_append (origin : String) {good : List Raw} {pairs : List (String × Float)}
    (h : List.Forall₂ (fun r p => entry r = .ok p) good pairs) (m : Measurements) (row : Nat)
    (more : List Raw) :
    (readRows origin m row (good ++ more)).result =
      (readRows origin (m.store pairs) (row + good.length) more).result := by
  induction h generalizing m row with
  | nil => rfl
  | @cons r p good pairs hr _ ih =>
    unfold entry at hr
    rw [List.cons_append, readRows]
    cases htext : text r with
    | error defect => rw [htext] at hr; cases hr
    | ok fields =>
      rw [htext] at hr
      simp only [hr, ih, addRow, SortedMap.getThenInsert?_eq, store, List.foldl_cons,
        List.length_cons]
      congr 2
      omega

/-- A bad row ends the reading without a notice, and it has the same number in either way of
counting. -/
theorem readRows_bad (origin : String) {r : Raw} {defect : RowDefect}
    (h : entry r = .error defect) (m : Measurements) (more : List Raw) :
    readRows origin m (r.number + 1) (r :: more) =
      ⟨[], .error (.badRow origin (r.number + 1) defect)⟩ := by
  unfold entry at h
  rw [readRows]
  cases htext : text r with
  | error cause =>
    rw [htext] at h
    cases h
    rfl
  | ok fields =>
    rw [htext] at h
    simp only [h]

/-- Some record is bad, and this is the first one and what is said of it. -/
def FirstBad (records : List Raw) (i : Nat) (defect : RowDefect) : Prop :=
  (∃ r, records[i]? = some r ∧ Defective i r.start r.fields defect) ∧
    ∀ j r, j < i → records[j]? = some r → ¬ Bad j r.fields

/-- No record is bad. -/
def AllGood (records : List Raw) : Prop := ∀ i r, records[i]? = some r → ¬ Bad i r.fields

/-- Good data rows give their measurements, up to the first bad one. Rows are numbered from `n`. -/
theorem exists_entries {rows : List Raw} {n : Nat} (hn : 1 ≤ n)
    (hnumber : ∀ (i : Nat) (r : Raw), rows[i]? = some r → r.number = n + i)
    (hne : ∀ r ∈ rows, r.fields ≠ []) :
    (∃ pairs, List.Forall₂ (fun r p => entry r = .ok p ∧ Measures r.fields p) rows pairs ∧
      ∀ i r, rows[i]? = some r → ¬ Bad (n + i) r.fields) ∨
    ∃ good bad more pairs defect, rows = good ++ bad :: more ∧
      List.Forall₂ (fun r p => entry r = .ok p ∧ Measures r.fields p) good pairs ∧
      (∀ i r, good[i]? = some r → ¬ Bad (n + i) r.fields) ∧ entry bad = .error defect ∧
      bad.number = n + good.length ∧ Defective bad.number bad.start bad.fields defect := by
  induction rows generalizing n with
  | nil => exact .inl ⟨[], .nil, by simp⟩
  | cons r rows ih =>
    have hr : r.number = n := hnumber 0 r rfl
    rcases entry_cases r (by omega) (hne r List.mem_cons_self) with
      ⟨p, hp, hmeasures, hgood⟩ | ⟨defect, herr, hdefect⟩
    · have hcons : ∀ {good : List Raw},
          (∀ i s, good[i]? = some s → ¬ Bad (n + 1 + i) s.fields) →
            ∀ i s, (r :: good)[i]? = some s → ¬ Bad (n + i) s.fields := by
        rintro good hall (_ | i) s hs
        · cases hs
          exact hr ▸ hgood
        · rw [← Nat.add_assoc, Nat.add_right_comm]
          exact hall i s (by simpa using hs)
      have hrest := ih (n := n + 1) (by omega)
        (fun i s hs => by rw [hnumber (i + 1) s (by simpa using hs)]; omega)
        (fun s hs => hne s (List.mem_cons_of_mem _ hs))
      rcases hrest with
        ⟨pairs, hpairs, hall⟩ | ⟨good, bad, more, pairs, defect, rfl, hpairs, hall, herr, hbad, h⟩
      · exact .inl ⟨p :: pairs, .cons ⟨hp, hmeasures⟩ hpairs, hcons hall⟩
      · refine .inr ⟨r :: good, bad, more, p :: pairs, defect, rfl, .cons ⟨hp, hmeasures⟩ hpairs,
          hcons hall, herr, ?_, h⟩
        rw [hbad, List.length_cons]
        omega
    · exact .inr ⟨[], r, rows, [], defect, rfl, .nil, by simp, herr, hr, hdefect⟩

/-- A header is bad exactly if it is no text. -/
theorem header_cases (header : Raw) :
    (∃ texts, text header = .ok texts ∧ ¬ Bad 0 header.fields) ∨
    ∃ defect, text header = .error defect ∧
      Defective header.number header.start header.fields defect := by
  rcases text_cases header with ⟨texts, hok, htexts⟩ | h
  · refine .inl ⟨texts, hok, ?_⟩
    rintro (h | ⟨hrow, -⟩)
    · exact (isText_of_forall₂ htexts).not_exists h
    · omega
  · exact .inr h

/-- The outcome of reading the rows below a header. -/
theorem readRows_cases (origin : String) {rows : List Raw}
    (hnumber : ∀ (i : Nat) (r : Raw), rows[i]? = some r → r.number = i + 1)
    (hne : ∀ r ∈ rows, r.fields ≠ []) :
    (∃ pairs, List.Forall₂ (fun r p => Measures r.fields p) rows pairs ∧
      (∀ i r, rows[i]? = some r → ¬ Bad (i + 1) r.fields) ∧
      (readRows origin empty 2 rows).result = .ok (SortedMap.ofList pairs)) ∨
    ∃ i r defect, rows[i]? = some r ∧ Defective (i + 1) r.start r.fields defect ∧
      (∀ j s, j < i → rows[j]? = some s → ¬ Bad (j + 1) s.fields) ∧
      (readRows origin empty 2 rows).result = .error (.badRow origin (i + 2) defect) := by
  have hfrom : ∀ (i : Nat) (r : Raw), rows[i]? = some r → r.number = 1 + i := fun i r hr => by
    rw [hnumber i r hr, Nat.add_comm]
  rcases exists_entries (Nat.le_refl 1) hfrom hne with ⟨pairs, hpairs, hall⟩ |
    ⟨good, bad, more, pairs, defect, rfl, hpairs, hall, herr, hrow, hdefect⟩
  · refine .inl ⟨pairs, hpairs.imp fun _ _ h => h.2, fun i r hr => ?_, ?_⟩
    · rw [Nat.add_comm]
      exact hall i r hr
    · have happend := readRows_append origin (hpairs.imp fun _ _ h => h.1) empty 2 []
      rw [List.append_nil] at happend
      rw [happend]
      rfl
  · rw [Nat.add_comm] at hrow
    refine .inr ⟨good.length, bad, defect, by simp, hrow ▸ hdefect, fun j s hj hs => ?_, ?_⟩
    · rw [Nat.add_comm]
      rw [List.getElem?_append_left hj] at hs
      exact hall j s hs
    · -- The loop has counted as many rows as the scanner.
      have hcount : 2 + good.length = bad.number + 1 := by omega
      rw [readRows_append origin (hpairs.imp fun _ _ h => h.1), hcount, readRows_bad origin herr,
        hrow]

/-- The outcome of reading records: what the data rows give, or the first bad record. -/
theorem readRecords_cases (origin : String) {records : List Raw}
    (hnumber : ∀ (i : Nat) (r : Raw), records[i]? = some r → r.number = i)
    (hne : ∀ r ∈ records, r.fields ≠ []) :
    (AllGood records ∧ ∃ pairs,
      List.Forall₂ (fun r p => Measures r.fields p) (records.drop 1) pairs ∧
      (readRecords origin records).result = .ok (SortedMap.ofList pairs)) ∨
    ∃ i defect, FirstBad records i defect ∧
      (readRecords origin records).result = .error (.badRow origin (i + 1) defect) := by
  cases records with
  | nil => exact .inl ⟨by simp [AllGood], [], .nil, rfl⟩
  | cons header rows =>
    have hzero : header.number = 0 := hnumber 0 header rfl
    rcases header_cases header with ⟨texts, hok, hgood⟩ | ⟨defect, herr, hdefect⟩
    · have hread : (readRecords origin (header :: rows)).result =
          (readRows origin empty 2 rows).result := by rw [readRecords, hok]
      rw [hread]
      rcases readRows_cases origin (fun i r hr => hnumber (i + 1) r (by simpa using hr))
          (fun r hr => hne r (List.mem_cons_of_mem _ hr)) with
        ⟨pairs, hpairs, hall, hresult⟩ | ⟨i, r, defect, hr, hdefect, hbefore, hresult⟩
      · refine .inl ⟨?_, pairs, hpairs, hresult⟩
        rintro (_ | i) r hr
        · cases hr
          exact hgood
        · exact hall i r (by simpa using hr)
      · refine .inr ⟨i + 1, defect, ⟨⟨r, by simpa using hr, hdefect⟩, ?_⟩, hresult⟩
        rintro (_ | j) s hj hs
        · cases hs
          exact hgood
        · exact hbefore j s (Nat.lt_of_succ_lt_succ hj) (by simpa using hs)
    · refine .inr ⟨0, defect, ⟨⟨header, rfl, ?_⟩, by simp⟩, ?_⟩
      · rwa [hzero] at hdefect
      · simp only [readRecords, herr, notText, hzero]

/-- Reading a stream that ends is reading its records. -/
theorem read_eq (d : Dialect) (origin : String) (bytes : Bytes) :
    read d origin { bytes } = readRecords origin (records d bytes) := by
  unfold read Stream.failureSeen
  simp only [ite_self]

/-- The outcome of reading a stream that ends. -/
theorem read_cases (d : Dialect) (origin : String) (bytes : Bytes) :
    (AllGood (records d bytes) ∧ ∃ pairs,
      List.Forall₂ (fun r p => Measures r.fields p) ((records d bytes).drop 1) pairs ∧
      (read d origin { bytes }).result = .ok (SortedMap.ofList pairs)) ∨
    ∃ i defect, FirstBad (records d bytes) i defect ∧
      (read d origin { bytes }).result = .error (.badRow origin (i + 1) defect) := by
  rw [read_eq]
  exact readRecords_cases origin (fun i r h => number_records h)
    fun r h => fields_ne_nil_of_mem_records h

/-- **Reading measurements.** The bytes spell the scanner's records and no others. If none of them
is bad, reading gives a map with the names of the data rows, each with the value of the last row of
that name. Otherwise it gives the first bad record by its row and says what is wrong with it; a name
is never what is missing, and the output's problems do not occur. -/
theorem read_outcome (d : Dialect) (origin : String) (bytes : Bytes) :
    let rs := records d bytes
    let outcome := (read d origin { bytes }).result
    (∀ spelled, Spelling d (withoutMark bytes) spelled ↔ spelled = rs.map (·.fields)) ∧
    ((AllGood rs ∧ ∃ pairs m,
        List.Forall₂ (fun r p => Measures r.fields p) (rs.drop 1) pairs ∧ outcome = .ok m ∧
        (∀ name, name ∈ m.keys ↔ name ∈ pairs.map (·.1)) ∧
        ∀ name value, m.get? name = some value ↔ LastIn pairs name value) ∨
      ∃ i r defect, rs[i]? = some r ∧ Bad i r.fields ∧
        (∀ j s, j < i → rs[j]? = some s → ¬ Bad j s.fields) ∧
        Defective i r.start r.fields defect ∧ outcome = .error (.badRow origin (i + 1) defect)) ∧
    (∀ row, outcome ≠ .error (.badRow origin row .missingName)) ∧
    (∀ cause, outcome ≠ .error (.recordRefused cause)) ∧
    ∀ expected actual, outcome ≠ .error (.ragged expected actual) := by
  intro rs outcome
  refine ⟨fun spelled => ?_, ?_⟩
  · rw [← fields_records_eq_iff, eq_comm]
  rcases read_cases d origin bytes with
    ⟨hgood, pairs, hpairs, hok⟩ | ⟨i, defect, ⟨⟨r, hr, hdefect⟩, hbefore⟩, herr⟩
  · refine ⟨.inl ⟨hgood, pairs, _, hpairs, hok, SortedMap.mem_keys_ofList pairs,
      SortedMap.get?_ofList_eq_some_iff pairs⟩, ?_⟩
    simp [outcome, hok]
  · refine ⟨.inr ⟨i, r, defect, hr, hdefect.bad, hbefore, hdefect, herr⟩, ?_⟩
    have hname : defect ≠ .missingName := by rintro rfl; cases hdefect
    simp [outcome, herr, hname]

end Measurements

end BenchRatio
