import BenchRatio.Proofs.Summary

/-!
# Totals among rows that are refused

Rows of the right and of the wrong width may come in any order. A refused row is reported and leaves
no trace: at every moment the totals are those of the accepted rows alone.

* `offerAll`: rows are offered one after the other.
* `offer_fitting`, `offer_refused`: one row.
* `labels_offer`, `labels_offerAll`: labels and their number never change.
* `offerAll_eq`: what is said of the rows, and the totals of the accepted ones.
* `offerAll_start`: **refused rows do no harm**, whenever the means are taken.
-/

namespace BenchRatio.Totals

/-- Offers rows one after the other: the totals in the end, and what was said of each row. -/
def offerAll (t : Totals) : List RatioRow → Totals × List (Option Problem)
  | [] => (t, [])
  | row :: more =>
    let (t', refusal) := t.offer row
    let (t'', refusals) := t'.offerAll more
    (t'', refusal :: refusals)

variable {t : Totals} {row : RatioRow}

theorem offer_fitting (h : row.ratios.length = t.columns.length) :
    t.offer row = (⟨List.zipWith ColumnTotal.add t.columns row.ratios⟩, none) := by
  rw [offer, observe_of_length h]

theorem offer_refused (h : row.ratios.length ≠ t.columns.length) :
    t.offer row =
      (t, some (.widthMismatch row.benchmark t.columns.length row.ratios.length)) := by
  rw [offer, observe, if_neg h]

theorem labels_offer (t : Totals) (row : RatioRow) :
    (t.offer row).1.columns.map (·.label) = t.columns.map (·.label) := by
  unfold offer
  split
  · next u hok => exact columns_observe_labels hok
  · rfl

theorem labels_offerAll (t : Totals) (rows : List RatioRow) :
    (t.offerAll rows).1.columns.map (·.label) = t.columns.map (·.label) := by
  induction rows generalizing t with
  | nil => rfl
  | cons row rows ih => exact (ih (t.offer row).1).trans (labels_offer t row)

/-- What is said of a row where there are `width` columns. -/
def refusal? (width : Nat) (row : RatioRow) : Option Problem :=
  if row.ratios.length = width then none
  else some (.widthMismatch row.benchmark width row.ratios.length)

/-- The rows that are accepted where there are `width` columns. -/
def accepted (width : Nat) (rows : List RatioRow) : List RatioRow :=
  rows.filter fun row => row.ratios.length = width

/-- Exactly the rows of the wrong width are refused, and the totals are those of the others. -/
theorem offerAll_eq {width : Nat} (ht : t.columns.length = width) (rows : List RatioRow) :
    (t.offerAll rows).2 = rows.map (refusal? width) ∧
      t.observeAll (accepted width rows) = .ok (t.offerAll rows).1 := by
  induction rows generalizing t with
  | nil => exact ⟨rfl, rfl⟩
  | cons row rows ih =>
    by_cases hrow : row.ratios.length = width
    · have hfits := hrow.trans ht.symm
      obtain ⟨hsaid, hkept⟩ :=
        ih (t := ⟨List.zipWith ColumnTotal.add t.columns row.ratios⟩)
          ((length_zipWith_add hfits).trans ht)
      have haccepted : accepted width (row :: rows) = row :: accepted width rows :=
        List.filter_cons_of_pos (by simpa using hrow)
      rw [offerAll, offer_fitting hfits, haccepted, observeAll_cons, observe_of_length hfits]
      refine ⟨?_, hkept⟩
      rw [List.map_cons, refusal?, if_pos hrow, ← hsaid]
    · have hwide : row.ratios.length ≠ t.columns.length := fun h => hrow (h.trans ht)
      obtain ⟨hsaid, hkept⟩ := ih ht
      have haccepted : accepted width (row :: rows) = accepted width rows :=
        List.filter_cons_of_neg (by simpa using hrow)
      rw [offerAll, offer_refused hwide, haccepted]
      refine ⟨?_, hkept⟩
      rw [List.map_cons, refusal?, if_neg hrow, ← hsaid, ht]

/-- **Refused rows do no harm.** Let rows of any widths be offered to fresh columns, up to any
moment. Exactly the rows of the wrong width have been refused, each with its benchmark and both
widths, and a further row of the wrong width leaves the columns as they are. The columns have kept
their labels, and they are those of fresh columns to which only the rows of the right width are
given, all of which are accepted: a column's sum is that of its defined ratios, added from zero in
the order of the rows, and its count is their number. So the means are those of these rows, or the
first column with the count zero is reported. -/
theorem offerAll_start (labels : List String) (rows : List RatioRow) :
    let now := ((start labels).offerAll rows).1
    let kept := rows.filter fun row => row.ratios.length = labels.length
    let values (i : Nat) := (column kept i).filterMap Ratio.value?
    ((start labels).offerAll rows).2 = rows.map (fun row =>
      if row.ratios.length = labels.length then none
      else some (.widthMismatch row.benchmark labels.length row.ratios.length)) ∧
    (∀ row, row.ratios.length ≠ labels.length → (now.offer row).1 = now) ∧
    now.columns.map (·.label) = labels ∧
    (start labels).observeAll kept = .ok now ∧
    (∀ i c, now.columns[i]? = some c →
      c.sum = (values i).foldl (· + ·) 0.0 ∧ c.count = (values i).length) ∧
    (((∀ c ∈ now.columns, c.count ≠ 0) ∧ now.means =
        .ok (now.columns.map fun c => ⟨c.label, c.sum / Float.ofNat c.count, c.count⟩)) ∨
      ∃ before c after, now.columns = before ++ c :: after ∧ (∀ b ∈ before, b.count ≠ 0) ∧
        c.count = 0 ∧ now.means = .error (.emptyColumn c.label)) := by
  intro now kept values
  obtain ⟨hsaid, hnow⟩ := offerAll_eq (length_start labels) rows
  have hwidth : ∀ row ∈ kept, row.ratios.length = labels.length := fun row hrow =>
    of_decide_eq_true (List.mem_filter.mp hrow).2
  obtain ⟨t, hok, hlength, hcolumns⟩ := columns_of_rows hwidth
  obtain rfl : t = now := Except.ok.inj (hok.symm.trans hnow)
  have hlabels : (start labels).columns.map (·.label) = labels := by
    simp [start, Function.comp_def]
  refine ⟨hsaid, fun row hrow => ?_, (labels_offerAll _ rows).trans hlabels, hnow,
    fun i c hc => ?_, means_cases now⟩
  · rw [offer_refused (hlength ▸ hrow)]
  · obtain ⟨hi, -⟩ := List.getElem?_eq_some_iff.mp hc
    have hcolumn := hcolumns i _ (List.getElem?_eq_getElem (hlength ▸ hi))
    rw [hc, Option.some_inj] at hcolumn
    subst hcolumn
    exact ⟨rfl, rfl⟩

end BenchRatio.Totals
