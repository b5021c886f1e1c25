import BenchRatio.Record.Spelling
import Mathlib.Tactic.Common

/-!
# The grammar of records

What the records of a file are, said without a scanner: how the bytes of a field, of a record and of
a file are put together. Any byte may be the delimiter or the quote, so the rules look one byte
ahead where a quote would change the meaning of what stands before it.

* `FieldSpelling`, `LineSpelling`, `Spelling`: the bytes of a field, a record and a file.
* `exists_spelling`: every byte string is the spelling of some records.
* `fields_records_eq_iff`: the scanner finds exactly the records that the bytes spell, so they spell
  no others.
-/

namespace BenchRatio

/-- A dialect whose two bytes differ from each other and from the terminators. -/
structure Dialect.Distinct (d : Dialect) : Prop where
  apart : d.delimiter ≠ d.quote
  delimiter : Record.isTerminator d.delimiter = false
  quote : Record.isTerminator d.quote = false

theorem Dialect.distinct_table : Dialect.table.Distinct := ⟨by decide, by decide, by decide⟩

namespace Record

/-! ## Rules -/

/-- A byte that belongs to a field wherever it stands in a part without quotes. -/
def Plain (d : Dialect) (b : UInt8) : Prop := b ≠ d.delimiter ∧ isTerminator b = false

instance (d : Dialect) : DecidablePred (Plain d) := fun _ => inferInstanceAs (Decidable (_ ∧ _))

/-- The bytes of a field and what they spell, where `next` is the byte after them, if there is one.
A doubled quote stands for one quote, and after a closing quote the field may go on. A quote that
nothing closes takes the rest of the file. -/
inductive FieldSpelling (d : Dialect) (next : Option UInt8) : Bytes → Bytes → Prop
  | bare {x : Bytes} (plain : ∀ b ∈ x, Plain d b)
      (start : (x ++ next.toList).head? ≠ some d.quote) : FieldSpelling d next x x
  | quoted {x rest : Bytes} (plain : ∀ b ∈ rest, Plain d b)
      (start : (rest ++ next.toList).head? ≠ some d.quote) :
      FieldSpelling d next (d.quote :: ((doubled d x).flatten ++ d.quote :: rest)) (x ++ rest)
  | unclosed {x : Bytes} (last : next = none) :
      FieldSpelling d next (d.quote :: (doubled d x).flatten) x

/-- The bytes of a record and its fields, where `stop` is the byte after them, if there is one. -/
inductive LineSpelling (d : Dialect) (stop : Option UInt8) : Bytes → List Bytes → Prop
  | last {s x : Bytes} (field : FieldSpelling d stop s x) : LineSpelling d stop s [x]
  | more {s x line : Bytes} {fields : List Bytes}
      (field : FieldSpelling d (some d.delimiter) s x) (others : LineSpelling d stop line fields) :
      LineSpelling d stop (s ++ d.delimiter :: line) (x :: fields)

theorem flatten_doubled_cons (d : Dialect) (b : UInt8) (x : Bytes) :
    (doubled d (b :: x)).flatten =
      (if b = d.quote then [d.quote, d.quote] else [b]) ++ (doubled d x).flatten := rfl

/-- The byte after a part without quotes decides with it which byte comes first. -/
theorem head?_append_next {x rest : Bytes} {next : Option UInt8} (h : next = none → rest = []) :
    (x ++ (next.toList ++ rest)).head? = (x ++ next.toList).head? := by
  cases next with
  | none => rw [h rfl, List.append_nil]
  | some b => cases x <;> rfl

/-- Whether a record can begin so: not with a byte that belongs to an empty line. -/
def StartsLine (line : Bytes) : Prop := ∃ b ∈ line.head?, isTerminator b = false

/-- The bytes of a file and its records. Runs of terminators before a record and after the last one
are empty lines; what ends a record is a terminator that is not the delimiter. -/
inductive Spelling (d : Dialect) : Bytes → List (List Bytes) → Prop
  | blank {gap : Bytes} (empty : ∀ b ∈ gap, isTerminator b = true) : Spelling d gap []
  | last {gap line : Bytes} {fields : List Bytes} (empty : ∀ b ∈ gap, isTerminator b = true)
      (start : StartsLine line) (record : LineSpelling d none line fields) :
      Spelling d (gap ++ line) [fields]
  | more {gap line rest : Bytes} {stop : UInt8} {fields : List Bytes} {records : List (List Bytes)}
      (empty : ∀ b ∈ gap, isTerminator b = true) (start : StartsLine line)
      (record : LineSpelling d (some stop) line fields) (ends : isTerminator stop = true)
      (apart : stop ≠ d.delimiter) (others : Spelling d rest records) :
      Spelling d (gap ++ (line ++ stop :: rest)) (fields :: records)

/-! ## The scanner on a spelled record -/

/-- The place after a run of bytes. -/
def Mark.past (m : Mark) (bytes : Bytes) : Mark := bytes.foldl Mark.after m

theorem Mark.past_append (m : Mark) (a b : Bytes) : m.past (a ++ b) = (m.past a).past b :=
  List.foldl_append

theorem Mark.past_cons (m : Mark) (b : UInt8) (bs : Bytes) :
    m.past (b :: bs) = (m.after b).past bs := rfl

section Scan

variable {d : Dialect} {done : List Bytes}

/-- Away from a quote, a field starts as one without quotes, and goes on so after its closing
quote. -/
theorem scan_eq_bare {p : Phase} (hp : p = .fieldStart ∨ p = .afterQuote) {field bytes : Bytes}
    {here : Mark} (h : bytes.head? ≠ some d.quote) :
    scan d p done field here bytes = scan d .bare done field here bytes := by
  cases bytes with
  | nil => rfl
  | cons b bs =>
    have hb : b ≠ d.quote := fun e => h (by rw [e]; rfl)
    rw [scan, scan]
    rcases hp with rfl | rfl
    · simp only [action, if_neg hb]
    · simp only [action, if_neg hb]

theorem scan_plain {x : Bytes} (plain : ∀ b ∈ x, Plain d b) (field rest : Bytes) (here : Mark) :
    scan d .bare done field here (x ++ rest) =
      scan d .bare done (x.reverse ++ field) (here.past x) rest := by
  induction x generalizing field here with
  | nil => rfl
  | cons b x ih =>
    obtain ⟨hd, ht⟩ := plain b List.mem_cons_self
    have hkeep : action d .bare b = .keep .bare := by simp [action, bareAction, hd, ht]
    rw [List.cons_append, scan, hkeep]
    simp only []
    rw [ih fun c hc => plain c (List.mem_cons_of_mem _ hc), List.reverse_cons, List.append_assoc]
    rfl

theorem scan_doubled (x field rest : Bytes) (here : Mark) :
    scan d .quoted done field here ((doubled d x).flatten ++ rest) =
      scan d .quoted done (x.reverse ++ field) (here.past (doubled d x).flatten) rest := by
  induction x generalizing field here with
  | nil => rfl
  | cons b x ih =>
    rw [flatten_doubled_cons, List.append_assoc, Mark.past_append, List.reverse_cons,
      List.append_assoc]
    by_cases hb : b = d.quote
    · rw [if_pos hb, hb, List.cons_append, List.cons_append, List.nil_append, scan]
      simp only [action, if_pos]
      rw [scan]
      simp only [action, if_pos]
      exact ih _ _
    · rw [if_neg hb, List.cons_append, List.nil_append, scan]
      simp only [action, if_neg hb]
      exact ih _ _

/-- What the scanner does with the byte after a field. -/
def endField (d : Dialect) (done : List Bytes) (x : Bytes) (here : Mark) (next : Option UInt8)
    (rest : Bytes) : Scanned :=
  match next with
  | none => ⟨(x :: done).reverse, false, here, []⟩
  | some b =>
    if b = d.delimiter then scan d .fieldStart (x :: done) [] (here.after b) rest
    else ⟨(x :: done).reverse, true, here.after b, rest⟩

/-- The byte after a field: none at the end of the bytes, otherwise one with a meaning. -/
def EndsField (d : Dialect) (next : Option UInt8) : Prop :=
  ∀ b ∈ next, b = d.delimiter ∨ isTerminator b = true

theorem scan_next {next : Option UInt8} (hnext : EndsField d next) {x field rest : Bytes}
    {here : Mark} (hx : field.reverse = x) (hrest : next = none → rest = []) :
    scan d .bare done field here (next.toList ++ rest) = endField d done x here next rest := by
  subst hx
  cases next with
  | none => rw [hrest rfl]; rfl
  | some b =>
    rw [Option.toList_some, List.singleton_append, scan, endField]
    rcases hnext b rfl with hb | hb
    · simp [action, bareAction, hb]
    · by_cases hd : b = d.delimiter
      · simp [action, bareAction, hd]
      · simp [action, bareAction, hd, hb]

/-- The scanner reads a spelled field as what it spells. -/
theorem scan_fieldSpelling {next : Option UInt8} {s x rest : Bytes} {here : Mark}
    (h : FieldSpelling d next s x) (hnext : EndsField d next) (hrest : next = none → rest = []) :
    scan d .fieldStart done [] here (s ++ (next.toList ++ rest)) =
      endField d done x (here.past s) next rest := by
  cases h with
  | bare plain start =>
    rw [scan_eq_bare (.inl rfl) (head?_append_next hrest ▸ start), scan_plain plain]
    exact scan_next hnext (by simp) hrest
  | @quoted y tail plain start =>
    rw [List.cons_append, scan]
    simp only [action, if_pos]
    rw [List.append_assoc, scan_doubled, List.cons_append, scan]
    simp only [action, if_pos]
    rw [scan_eq_bare (.inr rfl) (head?_append_next hrest ▸ start), scan_plain plain]
    rw [Mark.past_cons, Mark.past_append, Mark.past_cons]
    exact scan_next hnext (by simp) hrest
  | unclosed last =>
    subst last
    rw [hrest rfl, List.cons_append, scan]
    simp only [action, if_pos]
    rw [scan_doubled]
    simp [endField, scan, Mark.past_cons]

/-- The scanner reads a spelled record as its fields and stops after the byte that ends it. -/
theorem scan_lineSpelling {stop : Option UInt8} {line : Bytes} {fields : List Bytes}
    (h : LineSpelling d stop line fields)
    (hstop : ∀ b ∈ stop, isTerminator b = true ∧ b ≠ d.delimiter)
    (done : List Bytes) (here : Mark) {rest : Bytes} (hrest : stop = none → rest = []) :
    scan d .fieldStart done [] here (line ++ (stop.toList ++ rest)) =
      ⟨done.reverse ++ fields, stop.isSome, here.past (line ++ stop.toList), rest⟩ := by
  induction h generalizing done here with
  | @last s x field =>
    rw [scan_fieldSpelling field (fun b hb => .inr (hstop b hb).1) hrest, Mark.past_append]
    cases stop with
    | none => simp [endField, hrest rfl, Mark.past]
    | some b => simp [endField, (hstop b rfl).2, Mark.past]
  | @more s x line fields field _ ih =>
    have hs : s ++ d.delimiter :: line ++ (stop.toList ++ rest) =
        s ++ ((some d.delimiter).toList ++ (line ++ (stop.toList ++ rest))) := by simp
    rw [hs, scan_fieldSpelling field (fun b hb => .inl (by simpa using hb.symm)) (by simp)]
    simp only [endField, if_pos]
    rw [ih, List.reverse_cons, List.append_assoc, List.singleton_append]
    simp [Mark.past]

end Scan

/-! ## The scanner on a spelled file -/

theorem skipTerminators_append {gap : Bytes} (empty : ∀ b ∈ gap, isTerminator b = true)
    (here : Mark) (rest : Bytes) :
    skipTerminators here (gap ++ rest) = skipTerminators (here.past gap) rest := by
  induction gap generalizing here with
  | nil => rfl
  | cons b gap ih =>
    rw [List.cons_append, skipTerminators, if_pos (empty b List.mem_cons_self)]
    exact ih (fun c hc => empty c (List.mem_cons_of_mem _ hc)) _

theorem skipTerminators_of_startsLine {line : Bytes} (h : StartsLine line) (here : Mark)
    (rest : Bytes) : skipTerminators here (line ++ rest) = (here, line ++ rest) := by
  obtain ⟨b, hb, hterm⟩ := h
  cases line with
  | nil => simp at hb
  | cons c line =>
    obtain rfl : c = b := by simpa using hb
    rw [List.cons_append, skipTerminators, hterm]
    rfl

/-- One step over the records of a file: empty lines, a record and what follows it. -/
theorem recordsFrom_line (d : Dialect) {gap line : Bytes}
    (empty : ∀ b ∈ gap, isTerminator b = true) (start : StartsLine line) {rest : Bytes}
    {here : Mark} {s : Scanned}
    (hs : scan d .fieldStart [] [] (here.past gap) (line ++ rest) = s) (number : Nat)
    (before : Mark) :
    recordsFrom d number before here (gap ++ (line ++ rest)) =
      ⟨number, before, s.fields, s.closed⟩ :: recordsFrom d (number + 1) s.here s.here s.rest := by
  subst hs
  have hskip : skipTerminators here (gap ++ (line ++ rest)) = (here.past gap, line ++ rest) := by
    rw [skipTerminators_append empty, skipTerminators_of_startsLine start]
  obtain ⟨b, hb, -⟩ := start
  cases line with
  | nil => simp at hb
  | cons c line =>
    rw [recordsFrom]
    split
    · next h => rw [hskip] at h; simp at h
    · next h =>
      rw [hskip, Prod.mk.injEq] at h
      rw [← h.1, ← h.2]

theorem recordsFrom_blank {d : Dialect} {gap : Bytes} (empty : ∀ b ∈ gap, isTerminator b = true)
    (number : Nat) (before here : Mark) : recordsFrom d number before here gap = [] := by
  have hskip := skipTerminators_append empty here []
  rw [List.append_nil] at hskip
  rw [recordsFrom]
  split
  · rfl
  · next h => rw [hskip] at h; simp [skipTerminators] at h

/-- The scanner finds the records that the bytes spell. -/
theorem fields_recordsFrom {d : Dialect} {bytes : Bytes} {records : List (List Bytes)}
    (h : Spelling d bytes records) (number : Nat) (before here : Mark) :
    (recordsFrom d number before here bytes).map (·.fields) = records := by
  induction h generalizing number before here with
  | blank empty => rw [recordsFrom_blank empty]; rfl
  | @last gap line fields empty start record =>
    have hscan := scan_lineSpelling record (by simp) [] (here.past gap) (fun _ => rfl)
    have hstep := recordsFrom_line d empty start hscan number before
    rw [Option.toList_none, List.append_nil, List.append_nil] at hstep
    rw [hstep, recordsFrom_blank (by simp)]
    rfl
  | @more gap line rest stop fields records empty start record ends apart _ ih =>
    have hscan := scan_lineSpelling record (by simpa using ⟨ends, apart⟩) [] (here.past gap)
      (show some stop = none → rest = [] by simp)
    rw [recordsFrom_line d empty start (by simpa using hscan), List.map_cons, ih]

/-! ## Every byte string spells records -/

/-- What follows an opening quote: the quoted part up to the quote that closes it, or all. -/
theorem exists_doubled (d : Dialect) (bytes : Bytes) :
    (∃ x, bytes = (doubled d x).flatten) ∨
      ∃ x rest, bytes = (doubled d x).flatten ++ d.quote :: rest ∧ rest.head? ≠ some d.quote := by
  induction h : bytes.length using Nat.strongRecOn generalizing bytes with
  | ind n ih =>
    subst h
    have step : ∀ (unit rest : Bytes) (b : UInt8), bytes = unit ++ rest → unit ≠ [] →
        (if b = d.quote then [d.quote, d.quote] else [b]) = unit →
        (∃ x, bytes = (doubled d x).flatten) ∨
          ∃ x rest, bytes = (doubled d x).flatten ++ d.quote :: rest ∧
            rest.head? ≠ some d.quote := by
      intro unit rest b hbytes hunit hb
      have hlen : rest.length < bytes.length := by
        have := List.length_pos_iff.mpr hunit
        rw [hbytes, List.length_append]
        omega
      rcases ih _ hlen rest rfl with ⟨x, hx⟩ | ⟨x, after, hx, hafter⟩
      · exact .inl ⟨b :: x, by rw [hbytes, hx, flatten_doubled_cons, hb]⟩
      · exact .inr ⟨b :: x, after, by rw [hbytes, hx, flatten_doubled_cons, hb, List.append_assoc],
          hafter⟩
    cases bytes with
    | nil => exact .inl ⟨[], rfl⟩
    | cons b rest =>
      by_cases hb : b = d.quote
      · subst hb
        by_cases hrest : rest.head? = some d.quote
        · obtain ⟨rest, rfl⟩ := List.head?_eq_some_iff.mp hrest
          exact step [d.quote, d.quote] rest d.quote rfl (by simp) (by simp)
        · exact .inr ⟨[], rest, rfl, hrest⟩
      · exact step [b] rest b rfl (by simp) (by simp [hb])

/-- A part without quotes goes on to the first byte with a meaning. -/
theorem exists_plain (d : Dialect) (bytes : Bytes) :
    ∃ (x : Bytes) (next : Option UInt8) (rest : Bytes), bytes = x ++ (next.toList ++ rest) ∧
      (∀ b ∈ x, Plain d b) ∧ EndsField d next ∧ (next = none → rest = []) := by
  induction bytes with
  | nil => exact ⟨[], none, [], rfl, by simp, by simp [EndsField], fun _ => rfl⟩
  | cons b bytes ih =>
    by_cases hb : Plain d b
    · obtain ⟨x, next, rest, rfl, hx, hnext, hrest⟩ := ih
      refine ⟨b :: x, next, rest, rfl, fun c hc => ?_, hnext, hrest⟩
      rcases List.mem_cons.mp hc with rfl | hc
      · exact hb
      · exact hx c hc
    · refine ⟨[], some b, bytes, rfl, by simp, fun c hc => ?_, by simp⟩
      obtain rfl : b = c := by simpa using hc
      by_cases hd : b = d.delimiter
      · exact .inl hd
      · exact .inr (by simpa [Plain, hd] using hb)

/-- Every byte string begins with a field. -/
theorem exists_fieldSpelling (d : Dialect) (bytes : Bytes) :
    ∃ (s x : Bytes) (next : Option UInt8) (rest : Bytes), bytes = s ++ (next.toList ++ rest) ∧
      FieldSpelling d next s x ∧ EndsField d next ∧ (next = none → rest = []) := by
  by_cases hq : bytes.head? = some d.quote
  · obtain ⟨bytes, rfl⟩ := List.head?_eq_some_iff.mp hq
    rcases exists_doubled d bytes with ⟨x, rfl⟩ | ⟨x, after, rfl, hafter⟩
    · exact ⟨_, x, none, [], by simp, .unclosed rfl, by simp [EndsField], fun _ => rfl⟩
    · obtain ⟨y, next, rest, rfl, hy, hnext, hrest⟩ := exists_plain d after
      have hstart := head?_append_next hrest ▸ hafter
      exact ⟨_, x ++ y, next, rest, by simp, .quoted hy hstart, hnext, hrest⟩
  · obtain ⟨x, next, rest, rfl, hx, hnext, hrest⟩ := exists_plain d bytes
    exact ⟨x, x, next, rest, rfl, .bare hx (head?_append_next hrest ▸ hq), hnext, hrest⟩

/-- Every byte string begins with a record. -/
theorem exists_lineSpelling (d : Dialect) (bytes : Bytes) :
    ∃ (line : Bytes) (fields : List Bytes) (stop : Option UInt8) (rest : Bytes),
      bytes = line ++ (stop.toList ++ rest) ∧ LineSpelling d stop line fields ∧
      (∀ b ∈ stop, isTerminator b = true ∧ b ≠ d.delimiter) ∧ (stop = none → rest = []) := by
  induction h : bytes.length using Nat.strongRecOn generalizing bytes with
  | ind n ih =>
    subst h
    obtain ⟨s, x, next, rest, rfl, hfield, hnext, hrest⟩ := exists_fieldSpelling d bytes
    cases next with
    | none => exact ⟨s, [x], none, rest, rfl, .last hfield, by simp, hrest⟩
    | some b =>
      by_cases hb : b = d.delimiter
      · subst hb
        obtain ⟨line, fields, stop, rest, rfl, hline, hstop, hrest⟩ :=
          ih rest.length (by simp; omega) rest rfl
        exact ⟨s ++ d.delimiter :: line, x :: fields, stop, rest, by simp, .more hfield hline,
          hstop, hrest⟩
      · refine ⟨s, [x], some b, rest, rfl, .last hfield, fun c hc => ?_, by simp⟩
        obtain rfl : b = c := by simpa using hc
        exact ⟨(hnext b rfl).resolve_left hb, hb⟩

theorem exists_gap (bytes : Bytes) :
    ∃ gap tail, bytes = gap ++ tail ∧ (∀ b ∈ gap, isTerminator b = true) ∧
      (tail = [] ∨ StartsLine tail) := by
  induction bytes with
  | nil => exact ⟨[], [], rfl, by simp, .inl rfl⟩
  | cons b bytes ih =>
    by_cases hb : isTerminator b = true
    · obtain ⟨gap, tail, rfl, hgap, htail⟩ := ih
      exact ⟨b :: gap, tail, rfl, by simpa using ⟨hb, hgap⟩, htail⟩
    · exact ⟨[], b :: bytes, rfl, by simp, .inr ⟨b, rfl, by simpa using hb⟩⟩

/-- Every byte string is the spelling of some records. -/
theorem exists_spelling (d : Dialect) (bytes : Bytes) : ∃ records, Spelling d bytes records := by
  induction h : bytes.length using Nat.strongRecOn generalizing bytes with
  | ind n ih =>
    subst h
    obtain ⟨gap, tail, rfl, hgap, rfl | htail⟩ := exists_gap bytes
    · exact ⟨[], by simpa using .blank hgap⟩
    obtain ⟨line, fields, stop, rest, rfl, hline, hstop, hrest⟩ := exists_lineSpelling d tail
    -- The first byte begins the record, since it can neither be missing nor end it.
    have hstart : StartsLine line := by
      obtain ⟨b, hb, hterm⟩ := htail
      cases line with
      | cons c line => exact ⟨b, by simpa using hb, hterm⟩
      | nil =>
        cases stop with
        | none => simp [hrest rfl] at hb
        | some c =>
          obtain rfl : c = b := by simpa using hb
          simp [(hstop c rfl).1] at hterm
    cases stop with
    | none => exact ⟨[fields], by simpa [hrest rfl] using .last hgap hstart hline⟩
    | some b =>
      obtain ⟨ends, apart⟩ := hstop b rfl
      obtain ⟨records, hrecords⟩ := ih rest.length (by simp; omega) rest rfl
      exact ⟨fields :: records, .more hgap hstart hline ends apart hrecords⟩

/-! ## Files -/

/-- The bytes of a file after the byte order mark that may stand before everything. -/
def withoutMark : Bytes → Bytes
  | 0xEF :: 0xBB :: 0xBF :: bytes => bytes
  | bytes => bytes

theorem withoutMark_eq {bytes : Bytes} (h : ¬ byteOrderMark <+: bytes) :
    withoutMark bytes = bytes := by
  unfold withoutMark
  split
  · next rest => exact absurd ⟨rest, rfl⟩ h
  · rfl

theorem records_eq (d : Dialect) (bytes : Bytes) :
    ∃ here, records d bytes = recordsFrom d 0 .start here (withoutMark bytes) := by
  unfold records
  split
  · exact ⟨_, rfl⟩
  · next h => exact ⟨_, by rw [withoutMark]; exact h⟩

/-- **The scanner reads the grammar.** The records of a file are those that its bytes spell, and
they spell no others. -/
theorem fields_records_eq_iff (d : Dialect) (bytes : Bytes) (rs : List (List Bytes)) :
    (records d bytes).map (·.fields) = rs ↔ Spelling d (withoutMark bytes) rs := by
  obtain ⟨here, hrecords⟩ := records_eq d bytes
  rw [hrecords]
  constructor
  · rintro rfl
    obtain ⟨rs, hrs⟩ := exists_spelling d (withoutMark bytes)
    rwa [fields_recordsFrom hrs]
  · exact fun h => fields_recordsFrom h _ _ _

theorem number_recordsFrom (d : Dialect) (number : Nat) (before here : Mark) (bytes : Bytes) :
    ∀ (i : Nat) (r : Raw), (recordsFrom d number before here bytes)[i]? = some r →
      r.number = number + i := by
  fun_induction recordsFrom d number before here bytes with
  | case1 => simp
  | case2 number _ _ _ _ _ _ _ s ih =>
    intro i r h
    cases i with
    | zero => cases h; rfl
    | succ i =>
      have := ih i r (by simpa using h)
      omega

/-- The scanner numbers the records by their place in the file. -/
theorem number_records {d : Dialect} {bytes : Bytes} {i : Nat} {r : Raw}
    (h : (records d bytes)[i]? = some r) : r.number = i := by
  obtain ⟨here, hrecords⟩ := records_eq d bytes
  rw [hrecords] at h
  have := number_recordsFrom _ _ _ _ _ _ _ h
  omega

end Record

end BenchRatio
