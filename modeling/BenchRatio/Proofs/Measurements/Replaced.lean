import BenchRatio.Proofs.Measurements.Interrupted
import Mathlib.Data.List.Chain
import Mathlib.Data.List.Induction

/-!
# Replaced measurements

A row whose name has occurred before replaces the measurement of the earlier row, and a notice says
so. The notices are the only trace of what was replaced, and they are a full account of it: there is
one for each such row and no other, and for each name they lead from value to value to the one that
is kept.

* `last?`: the value of the last pair with a name.
* `replacements`: the notices that rows with the given pairs call for.
* `replacements_concat`, `addRow_ofList`: one more row.
* `notices_readRows`, `notices_readRecords`: the notices of any rows, and of any records.
* `size_add_length_replacements`, `changes_concat`, `changes_chain`: what the notices add up to.
* `judged`: the records that a reader judges.
* `read_replacements`: **every replaced measurement is accounted for**.
-/

namespace BenchRatio

namespace Measurements

open Record

/-! ## What the notices should be -/

/-- The value of the last pair with a name. -/
def last? (pairs : List (String × Float)) (name : String) : Option Float :=
  (pairs.filter (·.1 = name)).getLast?.map (·.2)

/-- The notice about a row with a pair, the earlier rows having given the others. A header is row
one, so the first pair is that of row two. -/
def replacement? (origin : String) (earlier : List (String × Float)) (p : String × Float) :
    Option Notice :=
  (last? earlier p.1).map fun old => .replaced origin (earlier.length + 2) p.1 old p.2

/-- The notices about all rows in their order. -/
def replacements (origin : String) (pairs : List (String × Float)) : List Notice :=
  (List.range pairs.length).filterMap fun i =>
    pairs[i]?.bind (replacement? origin (pairs.take i))

/-- The old value and the new one, if the notice is about the name. -/
def change? (name : String) : Notice → Option (Float × Float)
  | .replaced _ _ replaced old new => if replaced = name then some (old, new) else none
  | _ => none

section

variable (origin : String) (pairs : List (String × Float)) (p : String × Float) (name : String)

theorem last?_concat :
    last? (pairs ++ [p]) name = if p.1 = name then some p.2 else last? pairs name := by
  unfold last?
  by_cases h : p.1 = name
  · simp [h, List.filter_append]
  · simp [h, List.filter_append]

theorem get?_ofList : (SortedMap.ofList pairs).get? name = last? pairs name := by
  induction pairs using List.reverseRecOn with
  | nil => rfl
  | append_singleton pairs p ih =>
    rw [← SortedMap.insert_ofList, SortedMap.get?_insert, last?_concat, ih]
    simp only [eq_comm]

theorem last?_eq_none_iff : last? pairs name = none ↔ name ∉ pairs.map (·.1) := by
  rw [← get?_ofList, SortedMap.get?_ofList_eq_none_iff]
  simp only [List.mem_map, not_exists, not_and, ne_eq]

/-- One more row has a notice or not, and changes nothing for the rows before it. -/
theorem replacements_concat :
    replacements origin (pairs ++ [p]) =
      replacements origin pairs ++ (replacement? origin pairs p).toList := by
  have hbefore : (List.range pairs.length).filterMap (fun i =>
      (pairs ++ [p])[i]?.bind (replacement? origin ((pairs ++ [p]).take i))) =
        replacements origin pairs := by
    refine List.filterMap_congr fun i hi => ?_
    have hlt := List.mem_range.mp hi
    rw [List.getElem?_append_left hlt, List.take_append_of_le_length (Nat.le_of_lt hlt)]
  rw [replacements, List.length_append, List.length_singleton, List.range_succ,
    List.filterMap_append, hbefore, List.filterMap_cons]
  simp only [List.getElem?_concat_length, Option.bind_some, List.take_left, List.filterMap_nil]
  cases replacement? origin pairs p <;> rfl

theorem severity_of_mem_replacements {notice : Notice} (h : notice ∈ replacements origin pairs) :
    notice.severity = .debug := by
  obtain ⟨i, -, hi⟩ := List.mem_filterMap.mp h
  obtain ⟨p, -, hp⟩ := Option.bind_eq_some_iff.mp hi
  obtain ⟨old, -, rfl⟩ := Option.map_eq_some_iff.mp hp
  rfl

/-! ## What the notices are -/

theorem addRow_ofList :
    addRow origin (pairs.length + 2) (SortedMap.ofList pairs) p.1 p.2 =
      ⟨(replacement? origin pairs p).toList, SortedMap.ofList (pairs ++ [p])⟩ := by
  unfold addRow replacement?
  rw [SortedMap.getThenInsert?_eq, get?_ofList, SortedMap.insert_ofList]
  cases last? pairs p.1 <;> rfl

end

section

variable (origin : String)

/-- Good rows give their notices and leave a map with their pairs. -/
theorem notices_readRows {good : List Raw} {pairs : List (String × Float)}
    (h : List.Forall₂ (fun r p => entry r = .ok p) good pairs) (earlier : List (String × Float))
    (more : List Raw) :
    replacements origin earlier ++
        (readRows origin (.ofList earlier) (earlier.length + 2) (good ++ more)).notices =
      replacements origin (earlier ++ pairs) ++
        (readRows origin (.ofList (earlier ++ pairs)) ((earlier ++ pairs).length + 2)
          more).notices := by
  induction h generalizing earlier with
  | nil => simp
  | @cons r p good pairs hr _ ih =>
    unfold entry at hr
    rw [List.cons_append, readRows]
    cases htext : text r with
    | error defect => rw [htext] at hr; cases hr
    | ok fields =>
      rw [htext] at hr
      have hstep := ih (earlier ++ [p])
      rw [replacements_concat, List.length_append, List.length_singleton, List.append_assoc,
        List.append_assoc, Nat.add_right_comm] at hstep
      simp only [hr, addRow_ofList]
      exact hstep

theorem notices_rows {rows : List Raw}
    (hnumber : ∀ (i : Nat) (r : Raw), rows[i]? = some r → r.number = 1 + i)
    (hne : ∀ r ∈ rows, r.fields ≠ []) :
    ∃ good rest pairs, rows = good ++ rest ∧
      (∀ i r, good[i]? = some r → ¬ Bad (1 + i) r.fields) ∧
      (∀ r ∈ rest.head?, Bad (1 + good.length) r.fields) ∧
      List.Forall₂ (fun r p => Measures r.fields p) good pairs ∧
      (readRows origin empty 2 rows).notices = replacements origin pairs ∧
      ∀ m, (readRows origin empty 2 rows).result = .ok m → rest = [] ∧ m = .ofList pairs := by
  have hrun : ∀ {good : List Raw} {pairs : List (String × Float)} (more : List Raw),
      List.Forall₂ (fun r p => entry r = .ok p) good pairs →
        (readRows origin empty 2 (good ++ more)).notices = replacements origin pairs ++
          (readRows origin (.ofList pairs) (pairs.length + 2) more).notices :=
    fun more h => notices_readRows origin h [] more
  rcases exists_entries (Nat.le_refl 1) hnumber hne with ⟨pairs, hpairs, hall⟩ |
    ⟨good, bad, more, pairs, defect, rfl, hpairs, hall, herr, hbad, hdefect⟩
  · have hentries := hpairs.imp fun _ _ h => h.1
    have hnotices := hrun [] hentries
    have hresult := readRows_append origin hentries empty 2 []
    rw [List.append_nil] at hnotices hresult
    refine ⟨rows, [], pairs, (List.append_nil _).symm, hall, by simp,
      hpairs.imp fun _ _ h => h.2, hnotices.trans (List.append_nil _), fun m h => ?_⟩
    rw [hresult] at h
    exact ⟨rfl, (Except.ok.inj h).symm⟩
  · have hentries := hpairs.imp fun _ _ h => h.1
    -- The loop has counted as many rows as the scanner.
    have hcount : 2 + good.length = bad.number + 1 := by omega
    have hpaired : pairs.length + 2 = bad.number + 1 := by rw [← hpairs.length_eq]; omega
    refine ⟨good, bad :: more, pairs, rfl, hall, ?_, hpairs.imp fun _ _ h => h.2, ?_,
      fun m h => ?_⟩
    · rintro r ⟨⟩
      exact hbad ▸ hdefect.bad
    · rw [hrun _ hentries, hpaired, readRows_bad origin herr, List.append_nil]
    · rw [readRows_append origin hentries, hcount, readRows_bad origin herr] at h
      cases h

/-- The notices of records are those of the good data rows before the first bad record. -/
theorem notices_readRecords {records : List Raw}
    (hnumber : ∀ (i : Nat) (r : Raw), records[i]? = some r → r.number = i)
    (hne : ∀ r ∈ records, r.fields ≠ []) :
    ∃ good rest pairs, records = good ++ rest ∧
      (∀ i r, good[i]? = some r → ¬ Bad i r.fields) ∧
      (∀ r ∈ rest.head?, Bad good.length r.fields) ∧
      List.Forall₂ (fun r p => Measures r.fields p) (good.drop 1) pairs ∧
      (readRecords origin records).notices = replacements origin pairs ∧
      ∀ m, (readRecords origin records).result = .ok m → rest = [] ∧ m = .ofList pairs := by
  cases records with
  | nil =>
    refine ⟨[], [], [], rfl, by simp, by simp, .nil, rfl, fun m h => ⟨rfl, ?_⟩⟩
    cases h
    rfl
  | cons header rows =>
    rcases header_cases header with ⟨texts, hok, hgood⟩ | ⟨defect, herr, hdefect⟩
    · have hread : readRecords origin (header :: rows) = readRows origin empty 2 rows := by
        rw [readRecords, hok]
      rw [hread]
      obtain ⟨good, rest, pairs, rfl, hgoods, hbad, hpairs, hrun⟩ := notices_rows origin
        (fun i r hr => by rw [hnumber (i + 1) r (by simpa using hr), Nat.add_comm])
        fun r hr => hne r (List.mem_cons_of_mem _ hr)
      refine ⟨header :: good, rest, pairs, rfl, ?_, fun r hr => ?_, hpairs, hrun⟩
      · rintro (_ | i) r hr
        · cases hr
          exact hgood
        · rw [Nat.add_comm]
          exact hgoods i r (by simpa using hr)
      · rw [List.length_cons, Nat.add_comm]
        exact hbad r hr
    · have hzero : header.number = 0 := hnumber 0 header rfl
      have hread : readRecords origin (header :: rows) =
          ⟨[], .error (notText origin header defect)⟩ := by
        rw [readRecords, herr]
      rw [hread]
      refine ⟨[], header :: rows, [], rfl, by simp, ?_, .nil, rfl, by simp⟩
      rintro r ⟨⟩
      rw [hzero] at hdefect
      exact hdefect.bad

end

/-! ## What the notices add up to -/

section

variable (origin : String) (pairs : List (String × Float)) (name : String)

/-- Every row has its own entry in the map or a notice. -/
theorem size_add_length_replacements :
    (SortedMap.ofList pairs).size + (replacements origin pairs).length = pairs.length := by
  induction pairs using List.reverseRecOn with
  | nil => rfl
  | append_singleton pairs p ih =>
    have hnew := last?_eq_none_iff pairs p.1
    rw [SortedMap.size_ofList_concat, replacements_concat, List.length_append, List.length_append,
      List.length_singleton, replacement?]
    cases hlast : last? pairs p.1 with
    | none =>
      rw [if_neg (hnew.mp hlast)]
      simp only [Option.map_none, Option.toList_none, List.length_nil]
      omega
    | some old =>
      have hmem : p.1 ∈ pairs.map (·.1) := by
        by_contra hnot
        rw [hnew.mpr hnot] at hlast
        cases hlast
      rw [if_pos hmem]
      simp only [Option.map_some, Option.toList_some, List.length_singleton]
      omega

/-- One more row with the name changes its value once more, if it had one. -/
theorem changes_concat (p : String × Float) :
    (replacements origin (pairs ++ [p])).filterMap (change? name) =
      (replacements origin pairs).filterMap (change? name) ++
        if p.1 = name then ((last? pairs name).map fun old => (old, p.2)).toList else [] := by
  rw [replacements_concat, List.filterMap_append, replacement?]
  by_cases hname : p.1 = name
  · rw [if_pos hname, ← hname]
    cases last? pairs p.1 <;> simp [change?]
  · rw [if_neg hname]
    cases last? pairs p.1 <;> simp [change?, hname]

/-- The notices about a name lead from each value to the next one, up to the last one. -/
theorem changes_chain :
    let changes := (replacements origin pairs).filterMap (change? name)
    changes.IsChain (fun a b => a.2 = b.1) ∧
      ∀ last ∈ changes.getLast?, last? pairs name = some last.2 := by
  induction pairs using List.reverseRecOn with
  | nil => exact ⟨.nil, nofun⟩
  | append_singleton pairs p ih =>
    obtain ⟨hchain, hend⟩ := ih
    rw [changes_concat, last?_concat]
    by_cases hname : p.1 = name
    · rw [if_pos hname, if_pos hname]
      cases hlast : last? pairs name with
      | none =>
        -- The first row with the name: there are no notices about it so far.
        refine ⟨by simpa using hchain, fun last h => ?_⟩
        have hbefore := hend last (by simpa using h)
        rw [hlast] at hbefore
        cases hbefore
      | some old =>
        rw [hlast] at hend
        refine ⟨hchain.append (.singleton _) fun a ha b hb => ?_, fun last h => ?_⟩
        · obtain rfl : (old, p.2) = b := by simpa using hb
          exact (Option.some.inj (hend a ha)).symm
        · obtain rfl : (old, p.2) = last := by simpa using h
          rfl
    · rw [if_neg hname, if_neg hname, List.append_nil]
      exact ⟨hchain, hend⟩

end

/-! ## Reading a stream -/

/-- The records that a reader judges: all of them, or the complete ones if the stream fails. -/
def judged (d : Dialect) (s : Stream) : List Raw :=
  match s.failureSeen with
  | none => records d s.bytes
  | some _ => (records d s.bytes).filter (·.closed)

theorem judged_isPrefix (d : Dialect) (s : Stream) : judged d s <+: records d s.bytes := by
  unfold judged
  split
  · exact List.prefix_rfl
  · simpa using closed_records_isPrefix d s.bytes []

/-- Reading gives the notices of the records that are judged, and measurements only if the stream
has not failed. -/
theorem read_judged (d : Dialect) (origin : String) (s : Stream) :
    (read d origin s).notices = (readRecords origin (judged d s)).notices ∧
      ∀ m, (read d origin s).result = .ok m → (readRecords origin (judged d s)).result = .ok m := by
  unfold read judged
  cases s.failureSeen with
  | none => exact ⟨rfl, fun m h => h⟩
  | some fault =>
    refine ⟨rfl, fun m h => ?_⟩
    cases hresult : (readRecords origin ((records d s.bytes).filter (·.closed))).result with
    | ok m' => simp [hresult, Except.bind] at h
    | error problem => simp [hresult, Except.bind] at h

/-- **Every replaced measurement is accounted for.** The good records before the first bad one are
the header and data rows, each of which gives a name and a measurement. There are no notices but one
for each data row whose name an earlier data row has, in the order of the rows. It has the number of
the row, the header being row one, the name, the measurement of the last earlier row with that name
and the row's own. So if there is no bad record, each data row has an entry in the result or a
notice, and the notices about a name lead from each measurement to the next one and end with the one
that is kept. -/
theorem read_replacements (d : Dialect) (origin : String) (s : Stream) :
    let seen := read d origin s
    ∃ good rest pairs, judged d s = good ++ rest ∧
      (∀ i r, good[i]? = some r → ¬ Bad i r.fields) ∧
      (∀ r ∈ rest.head?, Bad good.length r.fields) ∧
      List.Forall₂ (fun r p => Measures r.fields p) (good.drop 1) pairs ∧
      seen.notices = replacements origin pairs ∧
      (∀ notice ∈ seen.notices, notice.severity = .debug) ∧
      ∀ m, seen.result = .ok m →
        rest = [] ∧ (good.drop 1).length = m.size + seen.notices.length ∧
        ∀ name,
          let changes := seen.notices.filterMap (change? name)
          changes.IsChain (fun a b => a.2 = b.1) ∧
            ∀ last ∈ changes.getLast?, m.get? name = some last.2 := by
  intro seen
  obtain ⟨hnotices, hok⟩ := read_judged d origin s
  have hstart := judged_isPrefix d s
  obtain ⟨good, rest, pairs, hsplit, hgood, hbad, hpairs, hrun, hresult⟩ :=
    notices_readRecords origin (fun i r hr => number_of_isPrefix hstart hr)
      fun r hr => fields_ne_nil_of_mem_records (hstart.subset hr)
  have hseen : seen.notices = replacements origin pairs := hnotices.trans hrun
  refine ⟨good, rest, pairs, hsplit, hgood, hbad, hpairs, hseen, ?_, fun m hm => ?_⟩
  · rw [hseen]
    exact fun _ => severity_of_mem_replacements origin pairs
  · obtain ⟨rfl, rfl⟩ := hresult m (hok m hm)
    rw [hseen]
    refine ⟨rfl, ?_, fun name => ?_⟩
    · rw [hpairs.length_eq, size_add_length_replacements]
    · rw [get?_ofList]
      exact changes_chain origin pairs name

end Measurements

end BenchRatio
