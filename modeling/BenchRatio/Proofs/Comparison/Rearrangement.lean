import BenchRatio.Output.Table
import BenchRatio.Proofs.Measurements.Reading
import BenchRatio.Proofs.Text.Utf8
import Mathlib.Data.List.Perm.Basic

/-!
# The order of rows in results files

Measurements are kept in the order of their names, so the order in which a file has them is
forgotten. It matters only among rows with the same name, of which the last one counts.

* `Rearranged`: data rows in another order, where those with the same name have kept theirs.
* `Rearranged.of_nodup`: any order will do if the names are distinct.
* `ofList_eq`, `of_rearranges`: rearranged rows give the same measurements.
* `write_rearranged`: **the order of rows does not matter** to a comparison.
-/

namespace BenchRatio

namespace Record

/-! ## Rearranged rows -/

/-- Data rows in another order. Those with the same first field, which is their name, have kept
theirs. -/
structure Rearranged (rows others : List (List Bytes)) : Prop where
  perm : rows.Perm others
  order : ∀ name, rows.filter (·.head? = some name) = others.filter (·.head? = some name)

/-- Two rows with different names may change places. -/
theorem Rearranged.swap (before after : List (List Bytes)) {first second : List Bytes}
    (h : first.head? ≠ second.head?) :
    Rearranged (before ++ first :: second :: after) (before ++ second :: first :: after) := by
  refine ⟨.append_left _ (.swap _ _ _), fun name => ?_⟩
  rw [List.filter_append, List.filter_append]
  congr 1
  by_cases hfirst : first.head? = some name
  · have hsecond : second.head? ≠ some name := fun hs => h (hfirst.trans hs.symm)
    simp [hfirst, hsecond]
  · simp [List.filter_cons, hfirst]

/-- Any order will do if the names are distinct. -/
theorem Rearranged.of_nodup {rows others : List (List Bytes)} (h : rows.Perm others)
    (hnodup : (rows.map List.head?).Nodup) : Rearranged rows others := by
  refine ⟨h, fun name => ?_⟩
  have hrows : rows.Pairwise (·.head? ≠ ·.head?) := List.pairwise_map.mp hnodup
  have hothers : others.Pairwise (·.head? ≠ ·.head?) :=
    List.pairwise_map.mp ((h.map List.head?).nodup_iff.mp hnodup)
  -- No two of the rows with this name are different rows.
  refine List.Perm.eq_of_pairwise ?_ (hrows.filter _) (hothers.filter _) (h.filter _)
  intro a b ha hb hab _
  have hname : a.head? = some name := by simpa using (List.mem_filter.mp ha).2
  have hname' : b.head? = some name := by simpa using (List.mem_filter.mp hb).2
  exact absurd (hname.trans hname'.symm) hab

/-- The fields of the records in a file. -/
def fieldsOf (d : Dialect) (bytes : Bytes) : List (List Bytes) := (records d bytes).map (·.fields)

/-- A file with the same header and rearranged data rows. -/
structure Rearranges (d : Dialect) (bytes others : Bytes) : Prop where
  header : (fieldsOf d bytes).head? = (fieldsOf d others).head?
  rows : Rearranged (fieldsOf d bytes).tail (fieldsOf d others).tail

/-! ## What rows give, name by name -/

theorem Measures.head?_iff {fields : List Bytes} {p : String × Float} (h : Measures fields p)
    (name : String) : fields.head? = some (Utf8.encode name) ↔ p.1 = name := by
  obtain ⟨-, field, second, more, raw, rfl, hname, -, -⟩ := h
  rw [Utf8.eq_encode_of_decode? hname, List.head?_cons, Option.some_inj]
  refine ⟨fun he => ?_, fun he => by rw [he]⟩
  have := congrArg Utf8.decode? he
  rwa [Utf8.decode?_encode, Utf8.decode?_encode, Option.some_inj] at this

theorem measures_filter {rows : List (List Bytes)} {pairs : List (String × Float)}
    (h : List.Forall₂ Measures rows pairs) (name : String) :
    List.Forall₂ Measures (rows.filter (·.head? = some (Utf8.encode name)))
      (pairs.filter (·.1 = name)) := by
  induction h with
  | nil => exact .nil
  | @cons fields p rows pairs hfields _ ih =>
    have hiff := hfields.head?_iff name
    by_cases hname : p.1 = name
    · rw [List.filter_cons_of_pos (by simpa using hiff.mpr hname),
        List.filter_cons_of_pos (by simpa using hname)]
      exact .cons hfields ih
    · rw [List.filter_cons_of_neg (by simpa [hiff] using hname),
        List.filter_cons_of_neg (by simpa using hname)]
      exact ih

theorem measures_unique : Relator.RightUnique Measures := by
  rintro fields p q ⟨-, field, second, more, raw, rfl, hname, hraw, hvalue⟩
    ⟨-, _, _, _, raw', heq, hname', hraw', hvalue'⟩
  cases heq
  obtain rfl : raw = raw' := Option.some.inj (hraw.symm.trans hraw')
  exact Prod.ext (Option.some.inj (hname.symm.trans hname'))
    (Except.ok.inj (hvalue.symm.trans hvalue'))

theorem measures_tail {d : Dialect} {bytes : Bytes} {pairs : List (String × Float)}
    (h : List.Forall₂ (fun r p => Measures r.fields p) ((records d bytes).drop 1) pairs) :
    List.Forall₂ Measures (fieldsOf d bytes).tail pairs := by
  rwa [fieldsOf, ← List.map_tail, List.forall₂_map_left_iff, ← List.drop_one]

/-- Rearranged rows give the same map. -/
theorem Rearranged.ofList_eq {rows others : List (List Bytes)} (h : Rearranged rows others)
    {pairs otherPairs : List (String × Float)} (hpairs : List.Forall₂ Measures rows pairs)
    (hother : List.Forall₂ Measures others otherPairs) :
    SortedMap.ofList pairs = SortedMap.ofList otherPairs := by
  refine SortedMap.ofList_congr fun name => ?_
  have hrows := measures_filter hpairs name
  rw [h.order (Utf8.encode name)] at hrows
  exact List.right_unique_forall₂' measures_unique hrows (measures_filter hother name)

end Record

/-! ## Reading rearranged rows -/

open Record

namespace Measurements

/-- Data rows are judged alike, wherever they stand. -/
theorem allGood_iff (d : Dialect) (bytes : Bytes) :
    AllGood (records d bytes) ↔ (∀ fields ∈ (fieldsOf d bytes).head?, ¬ Bad 0 fields) ∧
      ∀ fields ∈ (fieldsOf d bytes).tail, ¬ Bad 1 fields := by
  unfold fieldsOf AllGood
  have hrow : ∀ (i : Nat) (fields : List Bytes), Bad (i + 1) fields ↔ Bad 1 fields := by
    intro i fields
    unfold Bad
    simp
  cases records d bytes with
  | nil => simp
  | cons header rows =>
    constructor
    · intro h
      refine ⟨by simpa using h 0 header rfl, fun fields hfields => ?_⟩
      obtain ⟨r, hr, rfl⟩ := List.mem_map.mp (by simpa using hfields)
      obtain ⟨i, hi⟩ := List.mem_iff_getElem?.mp hr
      exact (hrow i r.fields).not.mp (h (i + 1) r (by simpa using hi))
    · rintro ⟨hheader, hrows⟩ (_ | i) r hr
      · cases hr
        simpa using hheader
      · refine (hrow i r.fields).not.mpr (hrows r.fields ?_)
        simpa using List.mem_map_of_mem (List.mem_of_getElem? (by simpa using hr))

end Measurements

/-- A results file that has been opened: its bytes and what problems call it. -/
structure Input where
  origin : String
  bytes : Bytes

/-- An input gives measurements. -/
def Input.Gives (d : Dialect) (f : Input) (m : Measurements) : Prop :=
  (Measurements.read d f.origin { bytes := f.bytes }).result = .ok m

theorem Input.exists_gives {d : Dialect} {f : Input}
    (h : (Measurements.read d f.origin { bytes := f.bytes }).result.isOk = true) :
    ∃ m, f.Gives d m := by
  unfold Gives
  cases hread : (Measurements.read d f.origin { bytes := f.bytes }).result with
  | ok m => exact ⟨m, rfl⟩
  | error problem =>
    rw [hread] at h
    cases h

/-- Rearranged rows give the same measurements. -/
theorem Input.Gives.of_rearranges {d : Dialect} {f other : Input} {m : Measurements}
    (h : f.Gives d m) (hrows : Rearranges d f.bytes other.bytes) : other.Gives d m := by
  unfold Gives at h ⊢
  rcases Measurements.read_cases d f.origin f.bytes with
    ⟨hgood, pairs, hpairs, hok⟩ | ⟨_, _, -, herr⟩
  swap
  · rw [herr] at h
    cases h
  rw [hok, Except.ok.injEq] at h
  subst h
  have hotherGood : Measurements.AllGood (records d other.bytes) := by
    rw [Measurements.allGood_iff] at hgood ⊢
    rw [← hrows.header]
    exact ⟨hgood.1, fun fields hfields => hgood.2 fields (hrows.rows.perm.mem_iff.mpr hfields)⟩
  rcases Measurements.read_cases d other.origin other.bytes with
    ⟨-, otherPairs, hother, hotherOk⟩ | ⟨i, defect, ⟨⟨r, hr, hdefect⟩, -⟩, -⟩
  · rw [hotherOk, hrows.rows.ofList_eq (measures_tail hpairs) (measures_tail hother)]
  · exact absurd hdefect.bad (hotherGood i r hr)

namespace Table

/-- **The order of rows does not matter.** Let all inputs give measurements and let others have the
same headers and rearranged data rows. Then these give measurements, the baseline's for the same
benchmarks, and a comparison of them writes the same bytes and has the same summary or the same
problem. Any order will do for rows with distinct names. -/
theorem write_rearranged (d : Dialect) :
    (∀ bytes others : Bytes, (fieldsOf d bytes).head? = (fieldsOf d others).head? →
      (fieldsOf d bytes).tail.Perm (fieldsOf d others).tail →
      ((fieldsOf d bytes).tail.map List.head?).Nodup → Rearranges d bytes others) ∧
    ∀ (first other : Input) (inputs others : List Input),
      Rearranges d first.bytes other.bytes →
      List.Forall₂ (fun f other => Rearranges d f.bytes other.bytes) inputs others →
      ∀ (baseline : Measurements) (treatments : List Measurements),
        first.Gives d baseline → List.Forall₂ (Input.Gives d) inputs treatments →
        ∃ otherBaseline otherTreatments, other.Gives d otherBaseline ∧
          List.Forall₂ (Input.Gives d) others otherTreatments ∧
          otherBaseline.keys = baseline.keys ∧
          ∀ (o : Outlet) (labels : List String),
            write o labels (ratioTable otherBaseline otherTreatments).result =
              write o labels (ratioTable baseline treatments).result := by
  refine ⟨fun bytes others hheader hperm hnodup => ⟨hheader, .of_nodup hperm hnodup⟩, ?_⟩
  intro first other inputs others hfirst hinputs baseline treatments hbaseline htreatments
  refine ⟨baseline, treatments, hbaseline.of_rearranges hfirst, ?_, rfl, fun _ _ => rfl⟩
  induction hinputs generalizing treatments with
  | nil => exact htreatments
  | cons hrows _ ih =>
    cases htreatments with
    | cons hgives hmore => exact .cons (hgives.of_rearranges hrows) (ih _ hmore)

/-- A baseline with a name in two rows, and a treatment with distinct names. -/
theorem write_rearranged_repeated_name :
    let first : Input := ⟨"base.csv", Utf8.encode "name,value\nb,4\na,1\na,2\n"⟩
    let other : Input := ⟨"base.csv", Utf8.encode "name,value\na,1\n|b|,4\na,2\n"⟩
    let treatment : Input := ⟨"fast.csv", Utf8.encode "name,value\na,1\nb,8\n"⟩
    let otherTreatment : Input := ⟨"fast.csv", Utf8.encode "name,value\nb,8\na,1\n"⟩
    ∃ b t otherB otherT, first.Gives .results b ∧ treatment.Gives .results t ∧
      other.Gives .results otherB ∧ otherTreatment.Gives .results otherT ∧
      otherB.keys = b.keys ∧
      write (.direct .unlimited) ["base", "fast"] (ratioTable otherB [otherT]).result =
        write (.direct .unlimited) ["base", "fast"] (ratioTable b [t]).result := by
  intro first other treatment otherTreatment
  obtain ⟨hdistinct, hsame⟩ := write_rearranged .results
  have hrows : Rearranges .results first.bytes other.bytes := by
    refine ⟨by decide +kernel, ?_⟩
    have hdata : (fieldsOf .results first.bytes).tail =
        [["b", "4"], ["a", "1"], ["a", "2"]].map (·.map Utf8.encode) := by decide +kernel
    have hotherData : (fieldsOf .results other.bytes).tail =
        [["a", "1"], ["b", "4"], ["a", "2"]].map (·.map Utf8.encode) := by decide +kernel
    rw [hdata, hotherData]
    exact .swap [] [["a", "2"].map Utf8.encode] (by decide +kernel)
  have htreatment : Rearranges .results treatment.bytes otherTreatment.bytes :=
    hdistinct _ _ (by decide +kernel) (by decide +kernel) (by decide +kernel)
  obtain ⟨b, hb⟩ := Input.exists_gives (d := .results) (f := first) (by decide +kernel)
  obtain ⟨t, ht⟩ := Input.exists_gives (d := .results) (f := treatment) (by decide +kernel)
  obtain ⟨otherB, otherTs, hother, htreatments, hkeys, hwrite⟩ := hsame first other [treatment]
    [otherTreatment] hrows (.cons htreatment .nil) b [t] hb (.cons ht .nil)
  cases htreatments with
  | @cons _ otherT _ _ hotherT hnil =>
    cases hnil
    exact ⟨b, t, otherB, otherT, hb, ht, hother, hotherT, hkeys, hwrite _ _⟩

end Table

end BenchRatio
