import BenchRatio.Proofs.Record.Grammar

/-!
# Complete records

A record is complete when the byte that ends it is there. What follows a complete record changes
nothing in it, so the complete records of a part of a file are records of the file. Only the last
record of any bytes can be incomplete.

* `Complete`: the bytes of complete records.
* `recordsFrom_complete`: the scanner finds complete records, whatever follows them.
* `exists_complete`: every byte string is complete records and a rest without any.
* `Begins`, `begins_iff`: the complete records with which a file begins are those that the scanner
  finds closed.
* `closed_records_isPrefix`: **complete records stay what they are when more bytes follow**.
-/

namespace BenchRatio.Record

/-- The bytes of complete records: empty lines, a record and the byte that ends it, again and
again. -/
inductive Complete (d : Dialect) : Bytes → List (List Bytes) → Prop
  | none : Complete d [] []
  | more {gap line rest : Bytes} {stop : UInt8} {fields : List Bytes} {records : List (List Bytes)}
      (empty : ∀ b ∈ gap, isTerminator b = true) (start : StartsLine line)
      (record : LineSpelling d (some stop) line fields) (ends : isTerminator stop = true)
      (apart : stop ≠ d.delimiter) (others : Complete d rest records) :
      Complete d (gap ++ (line ++ stop :: rest)) (fields :: records)

variable {d : Dialect}

theorem Complete.of_isPrefix {bytes : Bytes} {records first : List (List Bytes)}
    (h : Complete d bytes records) (hfirst : first <+: records) :
    ∃ front rest, bytes = front ++ rest ∧ Complete d front first := by
  induction h generalizing first with
  | none =>
    obtain rfl := List.prefix_nil.mp hfirst
    exact ⟨[], [], rfl, .none⟩
  | @more gap line others stop fields records empty start record ends apart _ ih =>
    cases first with
    | nil => exact ⟨[], _, rfl, .none⟩
    | cons one first =>
      obtain ⟨rfl, hmore⟩ := List.cons_prefix_cons.mp hfirst
      obtain ⟨front, rest, rfl, hfront⟩ := ih hmore
      exact ⟨gap ++ (line ++ stop :: front), rest, by simp,
        .more empty start record ends apart hfront⟩

theorem Complete.eq_nil {bytes : Bytes} {records : List (List Bytes)}
    (h : Complete d bytes records) (hbytes : ∀ b ∈ bytes, isTerminator b = false) :
    records = [] := by
  cases h with
  | none => rfl
  | @more gap line rest stop _ _ _ _ _ ends _ _ =>
    have hstop := hbytes stop (by simp)
    rw [ends] at hstop
    cases hstop

/-! ## The scanner on complete records -/

/-- The scanner finds complete records closed and always with the same marks, and goes on behind
them. -/
theorem recordsFrom_complete {bytes : Bytes} {records : List (List Bytes)}
    (h : Complete d bytes records) (number : Nat) (before here : Mark) :
    ∃ rs before' here', rs.map (·.fields) = records ∧ (∀ r ∈ rs, r.closed = true) ∧
      ∀ rest, recordsFrom d number before here (bytes ++ rest) =
        rs ++ recordsFrom d (number + rs.length) before' here' rest := by
  induction h generalizing number before here with
  | none => exact ⟨[], before, here, rfl, by simp, fun rest => rfl⟩
  | @more gap line others stop fields records empty start record ends apart _ ih =>
    have hscan (rest : Bytes) :
        scan d .fieldStart [] [] (here.past gap)
            (line ++ ((some stop).toList ++ (others ++ rest))) =
          ⟨fields, true, (here.past gap).past (line ++ [stop]), others ++ rest⟩ :=
      scan_lineSpelling record (by simpa using ⟨ends, apart⟩) [] (here.past gap) (by simp)
    obtain ⟨rs, before', here', hrs, hclosed, hrest⟩ := ih (number + 1)
      ((here.past gap).past (line ++ [stop])) ((here.past gap).past (line ++ [stop]))
    refine ⟨⟨number, before, fields, true⟩ :: rs, before', here', by rw [List.map_cons, hrs],
      List.forall_mem_cons.mpr ⟨rfl, hclosed⟩, fun rest => ?_⟩
    have hsplit : gap ++ (line ++ stop :: others) ++ rest =
        gap ++ (line ++ ((some stop).toList ++ (others ++ rest))) := by simp
    rw [hsplit, recordsFrom_line d empty start (hscan rest)]
    simp only [hrest, List.cons_append, List.length_cons, Nat.add_right_comm, Nat.add_assoc]

/-- Every byte string is complete records and a rest in which the scanner finds none. -/
theorem exists_complete {bytes : Bytes} {records : List (List Bytes)}
    (h : Spelling d bytes records) :
    ∃ front rest whole, bytes = front ++ rest ∧ Complete d front whole ∧
      ∀ number before here, ∀ r ∈ recordsFrom d number before here rest, r.closed = false := by
  induction h with
  | @blank gap empty =>
    refine ⟨[], gap, [], rfl, .none, fun number before here r hr => ?_⟩
    rw [recordsFrom_blank empty] at hr
    cases hr
  | @last gap line fields empty start record =>
    refine ⟨[], gap ++ line, [], rfl, .none, fun number before here r hr => ?_⟩
    have hscan := scan_lineSpelling record (by simp) [] (here.past gap) (fun _ => rfl)
    have hstep := recordsFrom_line d empty start hscan number before
    rw [Option.toList_none, List.append_nil, List.append_nil] at hstep
    rw [hstep, recordsFrom_blank (by simp), List.mem_singleton] at hr
    rw [hr]
    rfl
  | @more gap line others stop fields records empty start record ends apart _ ih =>
    obtain ⟨front, rest, whole, rfl, hfront, hrest⟩ := ih
    exact ⟨gap ++ (line ++ stop :: front), rest, fields :: whole, by simp,
      .more empty start record ends apart hfront, hrest⟩

/-! ## Files -/

/-- A file begins with these records, each with the byte that ends it. -/
def Begins (d : Dialect) (bytes : Bytes) (records : List (List Bytes)) : Prop :=
  ∃ front rest, withoutMark bytes = front ++ rest ∧ Complete d front records

/-- A file is read from the same place when more bytes follow, unless it is a part of the byte order
mark only. -/
theorem records_append (d : Dialect) (bytes : Bytes) :
    (∃ here, ∀ more, records d (bytes ++ more) =
      recordsFrom d 0 .start here (withoutMark bytes ++ more)) ∨
    (withoutMark bytes = bytes ∧ ∀ b ∈ bytes, isTerminator b = false) := by
  by_cases hmark : byteOrderMark <+: bytes
  · obtain ⟨rest, rfl⟩ := hmark
    exact .inl ⟨⟨3, 1⟩, fun more => rfl⟩
  · rw [withoutMark_eq hmark]
    by_cases hpart : bytes <+: byteOrderMark
    · refine .inr ⟨rfl, fun b hb => ?_⟩
      have hmem : b ∈ byteOrderMark := hpart.subset hb
      simp only [byteOrderMark, List.mem_cons, List.not_mem_nil, or_false] at hmem
      rcases hmem with rfl | rfl | rfl <;> rfl
    · refine .inl ⟨.start, fun more => ?_⟩
      unfold records
      split
      · next rest hlonger =>
        -- A byte order mark in front would be in the first bytes, or they a part of it.
        exact absurd (List.prefix_or_prefix_of_prefix (List.prefix_append bytes more)
          ⟨rest, hlonger.symm⟩) (not_or.mpr ⟨hpart, hmark⟩)
      · rfl

/-- The closed records of a file are its complete ones, and they are its first records when more
bytes follow. -/
theorem exists_closed (d : Dialect) (bytes : Bytes) :
    ∃ front rest rs, withoutMark bytes = front ++ rest ∧ Complete d front (rs.map (·.fields)) ∧
      (records d bytes).filter (·.closed) = rs ∧ ∀ more, rs <+: records d (bytes ++ more) := by
  obtain ⟨spelled, hspelled⟩ := exists_spelling d (withoutMark bytes)
  obtain ⟨front, rest, whole, hsplit, hfront, hrest⟩ := exists_complete hspelled
  have hclosed : ∀ here, ∃ rs, rs.map (·.fields) = whole ∧
      (recordsFrom d 0 .start here (withoutMark bytes)).filter (·.closed) = rs ∧
      ∀ more, rs <+: recordsFrom d 0 .start here (withoutMark bytes ++ more) := by
    intro here
    obtain ⟨rs, before', here', hrs, hall, hfollow⟩ := recordsFrom_complete hfront 0 .start here
    refine ⟨rs, hrs, ?_, fun more => ?_⟩
    · rw [hsplit, hfollow, List.filter_append, List.filter_eq_self.mpr hall,
        List.filter_eq_nil_iff.mpr fun r hr => by simp [hrest _ _ _ r hr], List.append_nil]
    · rw [hsplit, List.append_assoc, hfollow]
      exact List.prefix_append _ _
  rcases records_append d bytes with ⟨here, hbytes⟩ | ⟨hwhole, hnone⟩
  · obtain ⟨rs, rfl, hfilter, hprefix⟩ := hclosed here
    refine ⟨front, rest, rs, hsplit, hfront, ?_, fun more => hbytes more ▸ hprefix more⟩
    have hself := hbytes []
    rw [List.append_nil, List.append_nil] at hself
    rw [hself, hfilter]
  · -- Nothing is complete in a part of the byte order mark.
    rw [hwhole] at hsplit
    have hfirst : ∀ b ∈ front, isTerminator b = false := fun b hb =>
      hnone b (hsplit ▸ List.mem_append_left _ hb)
    obtain rfl := hfront.eq_nil hfirst
    obtain ⟨here, hrecords⟩ := records_eq d bytes
    obtain ⟨rs, hrs, hfilter, -⟩ := hclosed here
    obtain rfl := List.map_eq_nil_iff.mp hrs
    exact ⟨front, rest, [], hwhole.trans hsplit, hfront, hrecords ▸ hfilter,
      fun _ => List.nil_prefix⟩

/-- **Complete records stay what they are.** Those of a part of a file are the first records of the
file, with the same marks. -/
theorem closed_records_isPrefix (d : Dialect) (bytes more : Bytes) :
    (records d bytes).filter (·.closed) <+: records d (bytes ++ more) := by
  obtain ⟨_, _, rs, -, -, hrs, hprefix⟩ := exists_closed d bytes
  exact hrs ▸ hprefix more

theorem begins_iff {bytes : Bytes} {spelled : List (List Bytes)} :
    Begins d bytes spelled ↔ spelled <+: ((records d bytes).filter (·.closed)).map (·.fields) := by
  constructor
  · rintro ⟨front, rest, hsplit, hfront⟩
    obtain ⟨here, hrecords⟩ := records_eq d bytes
    obtain ⟨rs, _, _, rfl, hall, hfollow⟩ := recordsFrom_complete hfront 0 .start here
    rw [hrecords, hsplit, hfollow, List.filter_append, List.filter_eq_self.mpr hall,
      List.map_append]
    exact List.prefix_append _ _
  · intro hprefix
    obtain ⟨front, rest, rs, hsplit, hfront, hrs, -⟩ := exists_closed d bytes
    rw [hrs] at hprefix
    obtain ⟨first, others, rfl, hfirst⟩ := hfront.of_isPrefix hprefix
    exact ⟨first, others ++ rest, by rw [hsplit, List.append_assoc], hfirst⟩

theorem Begins.isPrefix {bytes : Bytes} {spelled : List (List Bytes)} (h : Begins d bytes spelled)
    (more : Bytes) : spelled <+: (records d (bytes ++ more)).map (·.fields) :=
  (begins_iff.mp h).trans ((closed_records_isPrefix d bytes more).map _)

end BenchRatio.Record
