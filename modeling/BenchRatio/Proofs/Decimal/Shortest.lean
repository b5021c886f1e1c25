import BenchRatio.Proofs.Decimal.Rounding

/-!
# The shortest decimal reads back

* `gridPoint?_contains`: a grid point that is chosen lies in the interval.
* `near_shortest`: the shortest decimal of a measurement is nearest to it.
* `nearest_eq_of_near`: a decimal that is nearest to a measurement is read as that measurement, also
  through the two bounds that keep the powers of ten small.
-/

namespace BenchRatio.Decimal

open Binary64

/-- The number that a decimal stands for. -/
def value (d : Decimal) : Rat := d.coefficient * (10 : Rat) ^ d.exponent

/-! ## Grid points -/

/-- Whether a bound holds on the side of an interval, strictly if its ends do not belong to it. -/
def Interval.Below (i : Interval) (lo hi : Nat) : Prop := lo ≤ hi ∧ (i.closed = false → lo ≠ hi)

instance (i : Interval) (lo hi : Nat) : Decidable (i.Below lo hi) :=
  inferInstanceAs (Decidable (_ ∧ _))

theorem Interval.decide_below (i : Interval) (lo hi : Nat) :
    (if i.closed then decide (lo ≤ hi) else decide (lo < hi)) = decide (i.Below lo hi) := by
  cases hclosed : i.closed <;> rw [Bool.eq_iff_iff] <;>
    simp [Interval.Below, hclosed, Nat.lt_iff_le_and_ne]

/-- A grid point that is chosen is one of the two around the middle, and inside on its side. -/
theorem gridPoint?_cases {i : Interval} {tie : Tie} {num den n : Nat}
    (h : i.gridPoint? tie num den = some n) :
    (n = i.mid * num / den ∧ n ≠ 0 ∧ i.Below (i.low * num) (n * den)) ∨
      (n = i.mid * num / den + 1 ∧ i.Below (n * den) (i.high * num)) := by
  unfold Interval.gridPoint? at h
  simp only [Interval.decide_below] at h
  generalize i.mid * num / den = below at *
  split at h
  · next hboth =>
    simp only [Bool.and_eq_true, decide_eq_true_eq] at hboth
    obtain ⟨⟨hlow, hne⟩, hhigh⟩ := hboth
    have hn : n = below ∨ n = below + 1 := by
      split at h
      · exact .inl (Option.some.inj h).symm
      · exact .inr (Option.some.inj h).symm
      · split at h
        · exact .inl (Option.some.inj h).symm
        · exact .inr (Option.some.inj h).symm
    rcases hn with rfl | rfl
    · exact .inl ⟨rfl, hne, hlow⟩
    · exact .inr ⟨rfl, hhigh⟩
  · split at h
    · next hlow =>
      simp only [Bool.and_eq_true, decide_eq_true_eq] at hlow
      obtain rfl := Option.some.inj h
      exact .inl ⟨rfl, hlow.2, hlow.1⟩
    · split at h
      · next hhigh =>
        obtain rfl := Option.some.inj h
        exact .inr ⟨rfl, of_decide_eq_true hhigh⟩
      · cases h

/-- A grid point that is chosen is not zero and lies in the interval. -/
theorem gridPoint?_contains {i : Interval} {tie : Tie} {num den n : Nat} (hnum : 0 < num)
    (hden : 0 < den) (hlow : i.low < i.mid) (hhigh : i.mid < i.high)
    (h : i.gridPoint? tie num den = some n) :
    0 < n ∧ i.Contains ((n : Rat) * den / num) := by
  have hn : (0 : Rat) < num := by exact_mod_cast hnum
  have contains : i.Below (i.low * num) (n * den) → i.Below (n * den) (i.high * num) →
      i.Contains ((n : Rat) * den / num) := by
    intro h1 h2
    refine ⟨(le_div_iff₀ hn).mpr (by exact_mod_cast h1.1),
      (div_le_iff₀ hn).mpr (by exact_mod_cast h2.1), fun hopen => ⟨?_, ?_⟩⟩
    · have := lt_of_le_of_ne h1.1 (h1.2 hopen)
      exact ((lt_div_iff₀ hn).mpr (by exact_mod_cast this)).ne
    · have := lt_of_le_of_ne h2.1 (h2.2 hopen)
      exact ((div_lt_iff₀ hn).mpr (by exact_mod_cast this)).ne
  have hlow' : i.low * num < i.mid * num := Nat.mul_lt_mul_of_pos_right hlow hnum
  have hhigh' : i.mid * num < i.high * num := Nat.mul_lt_mul_of_pos_right hhigh hnum
  -- The middle stands between the two candidates, so the side that is not tested holds as well.
  rcases gridPoint?_cases h with ⟨hbelow, hne, hin⟩ | ⟨habove, hin⟩
  · have hfloor : n * den ≤ i.mid * num := hbelow ▸ Nat.div_mul_le_self _ _
    exact ⟨Nat.pos_of_ne_zero hne, contains hin ⟨by omega, fun _ => by omega⟩⟩
  · have hceil : i.mid * num < n * den := by
      have := Nat.lt_div_mul_add (a := i.mid * num) hden
      rwa [habove, Nat.add_mul, Nat.one_mul]
    exact ⟨habove ▸ Nat.succ_pos _, contains ⟨by omega, fun _ => by omega⟩ hin⟩

/-! ## Every grid, and the number itself -/

theorem low_lt_mid {m : Nat} (hm : 0 < m) (q : Int) :
    (Interval.ofFinite m q).low < (Interval.ofFinite m q).mid := by
  unfold Interval.ofFinite
  simp only []
  split <;> omega

theorem mid_lt_high (m : Nat) (q : Int) :
    (Interval.ofFinite m q).mid < (Interval.ofFinite m q).high := by
  simp [Interval.ofFinite]

theorem near_onGrid? {tie : Tie} {m : Nat} {q k : Int} {d : Decimal} (hm : 0 < m)
    (h : onGrid? tie m q k = some d) : 0 < d.coefficient ∧ Near m q d.value := by
  unfold onGrid? at h
  simp only [] at h
  obtain ⟨n, hn, rfl⟩ := Option.map_eq_some_iff.mp h
  have hpos : ∀ a b c d : Nat, 0 < a → 0 < c → 0 < Nat.pow a b * Nat.pow c d := fun a b c d ha hc =>
    Nat.mul_pos (Nat.pow_pos ha) (Nat.pow_pos hc)
  obtain ⟨hpos, hcontains⟩ := gridPoint?_contains (hpos _ _ _ _ (by decide) (by decide))
    (hpos _ _ _ _ (by decide) (by decide)) (low_lt_mid hm q) (mid_lt_high m q) hn
  refine ⟨hpos, ?_⟩
  unfold Near
  have hvalue : ((⟨n, k⟩ : Decimal).value) / (2 : Rat) ^ (q - 2) =
      (n : Rat) * ((Nat.pow 2 (2 - q).toNat * Nat.pow 10 k.toNat : Nat) : Rat) /
        ((Nat.pow 2 (q - 2).toNat * Nat.pow 10 (-k).toNat : Nat) : Rat) := by
    have h2 := two_zpow_pos (q - 2)
    have h2' : (0 : Rat) < (2 : Rat) ^ (2 - q).toNat := by positivity
    have h10 : (0 : Rat) < (10 : Rat) ^ (-k).toNat := by positivity
    have hq : (-(q - 2)).toNat = (2 - q).toNat := by omega
    simp only [Nat.pow_eq, value]
    push_cast
    rw [pow_toNat two_ne_zero (q - 2), pow_toNat (by norm_num) k, hq]
    field_simp
  rw [hvalue]
  exact hcontains

theorem near_exact {m : Nat} (hm : 0 < m) (q : Int) :
    0 < (exact m q).coefficient ∧ Near m q (exact m q).value := by
  have hvalue : 0 < (exact m q).coefficient ∧ (exact m q).value = m * (2 : Rat) ^ q := by
    unfold exact value
    split
    · next hq =>
      refine ⟨Nat.mul_pos hm (Nat.pow_pos (by decide)), ?_⟩
      obtain ⟨n, rfl⟩ := Int.eq_ofNat_of_zero_le hq
      simp [Nat.pow_eq]
    · next hq =>
      refine ⟨Nat.mul_pos hm (Nat.pow_pos (by decide)), ?_⟩
      obtain ⟨n, rfl⟩ : ∃ n : Nat, q = -n := ⟨(-q).toNat, by omega⟩
      have h10 : (10 : Rat) ^ n = 2 ^ n * 5 ^ n := by rw [← mul_pow]; norm_num
      simp only [Nat.pow_eq, neg_neg, Int.toNat_natCast, zpow_neg, zpow_natCast]
      push_cast
      rw [h10]
      field_simp
  refine ⟨hvalue.1, ?_⟩
  have hscale : (exact m q).value / (2 : Rat) ^ (q - 2) = 4 * m := by
    rw [hvalue.2, zpow_sub₀ (by norm_num)]
    have := two_zpow_pos q
    field_simp
    norm_num
  have hlow : ((Interval.ofFinite m q).low : Rat) < 4 * m := by
    exact_mod_cast low_lt_mid hm q
  have hhigh : (4 * m : Rat) < (Interval.ofFinite m q).high := by
    exact_mod_cast mid_lt_high m q
  unfold Near
  rw [hscale]
  exact ⟨hlow.le, hhigh.le, fun _ => ⟨hlow.ne, hhigh.ne⟩⟩

/-- The shortest decimal of a measurement is nearest to it. -/
theorem near_shortest (tie : Tie) {m : Nat} (hm : 0 < m) (q : Int) :
    0 < (shortest tie m q).coefficient ∧ Near m q (shortest tie m q).value := by
  unfold shortest
  simp only []
  cases hfind : (List.range 20).findSome? fun (i : Nat) =>
      onGrid? tie m q (topExponent m q - i) with
  | none => exact near_exact hm q
  | some d =>
    obtain ⟨i, -, hi⟩ := List.exists_of_findSome?_eq_some hfind
    exact near_onGrid? hm hi

/-! ## The powers of ten around it -/

theorem ten_zpow_lt_iff {a b : Int} : (10 : Rat) ^ a < (10 : Rat) ^ b ↔ a < b :=
  zpow_lt_zpow_iff_right₀ (by norm_num)

/-- A power of ten up to a finite measurement is below `10 ^ 310`. -/
theorem lt_of_ten_zpow_le {m : Nat} {q : Int} {v : Rat} (hc : Canonical m q) (h : Near m q v)
    {a : Int} (ha : (10 : Rat) ^ a ≤ v) : a < 310 := by
  have hp := two_zpow_pos q
  have hm := hc.add_one_le
  have hmax : ((2 ^ 1024 : Nat) : Rat) < ((10 ^ 310 : Nat) : Rat) :=
    Nat.cast_lt.mpr (by decide +kernel)
  rw [← ten_zpow_lt_iff]
  calc (10 : Rat) ^ a ≤ v := ha
    _ ≤ (m + 1 / 2) * (2 : Rat) ^ q := (div_le_iff₀ hp).mp (h.bounds hc.pos).2.1
    _ ≤ (2 : Rat) ^ (53 : Int) * (2 : Rat) ^ q :=
        mul_le_mul_of_nonneg_right (by linarith) hp.le
    _ = (2 : Rat) ^ (53 + q) := (two_zpow_add 53 q).symm
    _ ≤ (2 : Rat) ^ (1024 : Int) :=
        zpow_le_zpow_right₀ (by norm_num) (by have := hc.high; omega)
    _ < (10 : Rat) ^ (310 : Int) := by exact_mod_cast hmax

/-- A power of ten beyond a positive measurement is above `10 ^ -330`. -/
theorem lt_of_lt_ten_zpow {m : Nat} {q : Int} {v : Rat} (hc : Canonical m q) (h : Near m q v)
    {b : Int} (hb : v < (10 : Rat) ^ b) : -330 < b := by
  have hp := two_zpow_pos q
  have hm : (1 : Rat) ≤ m := by exact_mod_cast hc.pos
  have hmin : ((2 ^ 1075 : Nat) : Rat) < ((10 ^ 330 : Nat) : Rat) :=
    Nat.cast_lt.mpr (by decide +kernel)
  rw [← ten_zpow_lt_iff]
  calc (10 : Rat) ^ (-330 : Int) = ((10 : Rat) ^ (330 : Int))⁻¹ := zpow_neg _ _
    _ < ((2 : Rat) ^ (1075 : Int))⁻¹ := by
        refine inv_strictAnti₀ (two_zpow_pos _) ?_
        exact_mod_cast hmin
    _ = (2 : Rat) ^ (-1075 : Int) := (zpow_neg _ _).symm
    _ ≤ (2 : Rat) ^ (-1 + q) := zpow_le_zpow_right₀ (by norm_num) (by have := hc.low; omega)
    _ = (2 : Rat) ^ (-1 : Int) * (2 : Rat) ^ q := two_zpow_add _ _
    _ ≤ (m - 1 / 2) * (2 : Rat) ^ q := by
        refine mul_le_mul_of_nonneg_right ?_ hp.le
        norm_num
        linarith
    _ ≤ v := (le_div_iff₀ hp).mp (h.bounds hc.pos).1
    _ < (10 : Rat) ^ b := hb

/-! ## Reading it -/

/-- The fraction that is rounded to read a decimal. -/
theorem fraction_eq_value (d : Decimal) :
    ((d.coefficient * Nat.pow 10 d.exponent.toNat : Nat) : Rat) /
      ((Nat.pow 10 (-d.exponent).toNat : Nat) : Rat) = d.value := by
  have h10 : (0 : Rat) < (10 : Rat) ^ (-d.exponent).toNat := by positivity
  simp only [Nat.pow_eq, value]
  push_cast
  rw [pow_toNat (by norm_num) d.exponent]
  field_simp

/-- A coefficient has at most one decimal digit for each three binary ones, and one more. -/
theorem lt_ten_pow_log2 {n : Nat} : n < 10 ^ (n.log2 / 3 + 1) :=
  calc n < 2 ^ (n.log2 + 1) := Nat.lt_log2_self
    _ ≤ 2 ^ (3 * (n.log2 / 3 + 1)) := Nat.pow_le_pow_right (by decide) (by omega)
    _ = 8 ^ (n.log2 / 3 + 1) := Nat.pow_mul 2 3 _
    _ ≤ 10 ^ (n.log2 / 3 + 1) := Nat.pow_le_pow_left (by decide) _

/-- A decimal that is nearest to a measurement is read as that measurement. -/
theorem nearest_eq_of_near {m : Nat} {q : Int} {d : Decimal} (hc : Canonical m q)
    (hpos : 0 < d.coefficient) (h : Near m q d.value) (negative : Bool) :
    d.nearest negative = ofFields negative (bitsOf m q) := by
  have h10 : (0 : Rat) < (10 : Rat) ^ d.exponent := zpow_pos (by norm_num) _
  have hone : (1 : Rat) ≤ d.coefficient := by exact_mod_cast hpos
  -- Neither of the two bounds is reached by a number in the interval.
  have hhigh : d.exponent < 310 := by
    refine lt_of_ten_zpow_le hc h ?_
    exact le_mul_of_one_le_left h10.le hone
  have hlow : -330 < d.exponent + (d.coefficient.log2 / 3 + 1 : Nat) := by
    refine lt_of_lt_ten_zpow hc h ?_
    have hlog : (d.coefficient : Rat) < (10 : Rat) ^ (d.coefficient.log2 / 3 + 1) := by
      exact_mod_cast lt_ten_pow_log2
    rw [zpow_add₀ (by norm_num), zpow_natCast, mul_comm]
    exact mul_lt_mul_of_pos_right hlog h10
  have hden : 0 < Nat.pow 10 (-d.exponent).toNat := Nat.pow_pos (by decide)
  unfold Decimal.nearest Binary64.nearest
  rw [if_neg hpos.ne', if_neg (by omega), if_neg (by omega)]
  rw [nearestBits_eq hc hden (by rwa [fraction_eq_value])]

end BenchRatio.Decimal
