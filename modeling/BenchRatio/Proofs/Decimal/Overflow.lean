import BenchRatio.Proofs.Decimal.Exact

/-!
# When results are finite

A sum or a quotient of finite measurements is computed exactly and then rounded. Rounding gives an
infinity exactly if the exact result is at least half a step beyond the largest finite measurement,
which is `2 ^ 1024 - 2 ^ 970`.

* `Holds`, `Holds.shiftRight`: the number that a coefficient with its two extra bits stands for, and
  how bits are dropped from it.
* `roundWithAccuracy_cases`: what rounding gives, and when it is too large.
* `toRat`, `abs_toRat_lt`: the number that a finite measurement is.
* `isFinite_add_iff`, `isFinite_div_iff`: **when sums and quotients are finite**.
* `isFinite_sum_iff`, `isFinite_div_ofNat_iff`: when sums of many measurements and quotients by a
  count are.
-/

namespace BenchRatio.Binary64

open Float.Model Float.Model.UnpackedFloat

/-- Half a step beyond the largest finite measurement. -/
def overflowBound : Rat := (2 : Rat) ^ (1024 : Int) - (2 : Rat) ^ (970 : Int)

/-! ## Dropping bits -/

/-- In the unit `2 ^ e`, the number is in the unit above the coefficient, and in its upper half
exactly if the round bit is set. -/
structure Holds (em : ExtendedMantissa) (e : Int) (v : Rat) : Prop where
  low : (em.mantissa : Rat) ≤ v / (2 : Rat) ^ e
  high : v / (2 : Rat) ^ e < em.mantissa + 1
  half : em.roundBit = true ↔ (em.mantissa : Rat) + 1 / 2 ≤ v / (2 : Rat) ^ e

theorem Holds.shiftRightOne {em : ExtendedMantissa} {e : Int} {v : Rat} (h : Holds em e v) :
    Holds em.shiftRightOne (e + 1) v := by
  obtain ⟨hlow, hhigh, -⟩ := h
  have hunit : v / (2 : Rat) ^ (e + 1) = v / (2 : Rat) ^ e / 2 := by
    rw [zpow_add_one₀ two_ne_zero, div_div]
  have hmantissa : em.shiftRightOne.mantissa = em.mantissa / 2 := rfl
  have hround : em.shiftRightOne.roundBit = (em.mantissa % 2 != 0) := rfl
  have hsplit : (em.mantissa : Rat) = 2 * (em.mantissa / 2 : Nat) + (em.mantissa % 2 : Nat) := by
    exact_mod_cast (Nat.div_add_mod em.mantissa 2).symm
  have hbit : em.mantissa % 2 = 0 ∨ em.mantissa % 2 = 1 := Nat.mod_two_eq_zero_or_one _
  have hone : ((em.mantissa % 2 : Nat) : Rat) ≤ 1 := by exact_mod_cast (by omega)
  have hzero : (0 : Rat) ≤ (em.mantissa % 2 : Nat) := Nat.cast_nonneg _
  refine ⟨?_, ?_, ?_⟩
  · rw [hunit, hmantissa]
    linarith
  · rw [hunit, hmantissa]
    linarith
  · -- The bit that is dropped says in which half of the new unit the number is.
    rw [hunit, hmantissa, hround]
    rcases hbit with hbit | hbit
    · rw [hbit, Nat.cast_zero, add_zero] at hsplit
      rw [hbit]
      exact ⟨nofun, fun hle => by linarith⟩
    · rw [hbit, Nat.cast_one] at hsplit
      rw [hbit]
      exact ⟨fun _ => by linarith, fun _ => rfl⟩

theorem Holds.shiftRight {em : ExtendedMantissa} {e : Int} {v : Rat} (h : Holds em e v) (k : Nat) :
    Holds (em >>> k) (e + k) v := by
  change Holds (k.repeat ExtendedMantissa.shiftRightOne em) (e + k) v
  induction k with
  | zero => simpa [Nat.repeat] using h
  | succ k ih =>
    rw [Nat.repeat, Nat.cast_succ, ← add_assoc]
    exact ih.shiftRightOne

/-- A coefficient without a rest. -/
theorem holds_exact (m : Nat) (e : Int) :
    Holds (.ofMantissaAndAccuracy m .exact) e (m * (2 : Rat) ^ e) := by
  have hunit : (m : Rat) * (2 : Rat) ^ e / (2 : Rat) ^ e = m :=
    mul_div_cancel_right₀ _ (two_zpow_pos e).ne'
  refine ⟨?_, ?_, ?_⟩
  · rw [hunit]
    exact le_rfl
  · rw [hunit]
    exact lt_add_one _
  · rw [hunit]
    exact ⟨nofun, fun hle => by
      change (m : Rat) + 1 / 2 ≤ m at hle
      linarith⟩

theorem mantissa_ofMantissaAndAccuracy (m : Nat) (acc : Accuracy) :
    (ExtendedMantissa.ofMantissaAndAccuracy m acc).mantissa = m := by
  rcases acc with _ | _ | _ | _ <;> rfl

/-- The round bit says whether a rest is at least half of the divisor. -/
theorem roundBit_ofFraction (m rest : Nat) {den : Nat} (hden : 0 < den) :
    (ExtendedMantissa.ofMantissaAndAccuracy m (accuracyOfFraction rest den)).roundBit = true ↔
      den ≤ 2 * rest := by
  unfold accuracyOfFraction
  split
  · next hzero =>
    rw [hzero]
    exact ⟨nofun, fun h => by omega⟩
  · cases hcmp : compare (2 * rest) den with
    | lt =>
      have := Nat.compare_eq_lt.mp hcmp
      exact ⟨nofun, fun h => by omega⟩
    | eq =>
      have := Nat.compare_eq_eq.mp hcmp
      exact ⟨fun _ => by omega, fun _ => rfl⟩
    | gt =>
      have := Nat.compare_eq_gt.mp hcmp
      exact ⟨fun _ => by omega, fun _ => rfl⟩

/-- The whole part of a fraction with what is known of its rest. -/
theorem holds_fraction (num : Nat) {den : Nat} (hden : 0 < den) (e : Int) :
    Holds (.ofMantissaAndAccuracy (num / den) (accuracyOfFraction (num % den) den)) e
      ((num : Rat) / den * (2 : Rat) ^ e) := by
  have hunit : (num : Rat) / den * (2 : Rat) ^ e / (2 : Rat) ^ e = (num : Rat) / den :=
    mul_div_cancel_right₀ _ (two_zpow_pos e).ne'
  have hd : (0 : Rat) < den := by exact_mod_cast hden
  have hsplit : (num : Rat) / den = (num / den : Nat) + (num % den : Nat) / den := by
    have : (num : Rat) = den * (num / den : Nat) + (num % den : Nat) := by
      exact_mod_cast (Nat.div_add_mod num den).symm
    rw [div_eq_iff hd.ne', add_mul, div_mul_cancel₀ _ hd.ne', mul_comm]
    exact this
  have hrest : ((num % den : Nat) : Rat) / den < 1 := by
    rw [div_lt_one hd]
    exact_mod_cast Nat.mod_lt num hden
  have hhalf : (1 : Rat) / 2 ≤ ((num % den : Nat) : Rat) / den ↔ den ≤ 2 * (num % den) := by
    rw [le_div_iff₀ hd, ← Nat.cast_le (α := Rat), Nat.cast_mul, Nat.cast_two]
    constructor <;> intro h <;> linarith
  have hpos : (0 : Rat) ≤ ((num % den : Nat) : Rat) / den := by positivity
  refine ⟨?_, ?_, ?_⟩
  · rw [hunit, mantissa_ofMantissaAndAccuracy, hsplit]
    linarith
  · rw [hunit, mantissa_ofMantissaAndAccuracy, hsplit]
    linarith
  · rw [hunit, mantissa_ofMantissaAndAccuracy, roundBit_ofFraction _ _ hden, ← hhalf, hsplit]
    constructor <;> intro h <;> linarith

/-! ## Rounding -/

/-- A coefficient is rounded to itself or to the next one; the round bit decides, but for a tie of
an even coefficient. -/
theorem roundedMantissa_cases (em : ExtendedMantissa) :
    (em.roundedMantissa = em.mantissa ∧ (em.mantissa % 2 = 1 → em.roundBit = false)) ∨
      (em.roundedMantissa = em.mantissa + 1 ∧ em.roundBit = true) := by
  obtain ⟨m, roundBit, stickyBit⟩ := em
  cases roundBit with
  | false => cases stickyBit <;> exact .inl ⟨rfl, fun _ => rfl⟩
  | true =>
    cases stickyBit with
    | true => exact .inr ⟨rfl, rfl⟩
    | false =>
      have hrounded : (ExtendedMantissa.mk m true false).roundedMantissa = m + m % 2 := rfl
      rcases Nat.mod_two_eq_zero_or_one m with hm | hm
      · exact .inl ⟨by rw [hrounded, hm]; rfl, fun h => absurd (hm.symm.trans h) (by decide)⟩
      · exact .inr ⟨by rw [hrounded, hm], rfl⟩

theorem targetExponent_def (m : Nat) (e : Int) :
    Format.binary64.targetExponent (totalExponent m e) = max (m.log2 + 1 + e - 53) (-1074) := rfl

section

variable {em : ExtendedMantissa} {m : Nat} {e : Int} {v : Rat} {acc : Accuracy}

/-- In its own scale, a number has a coefficient of at most 53 bits, and of exactly 53 unless the
scale is the smallest one. -/
theorem target_bounds (h : Holds (.ofMantissaAndAccuracy m acc) e v)
    (he : e ≤ Format.binary64.targetExponent (totalExponent m e)) :
    let q := Format.binary64.targetExponent (totalExponent m e)
    v / (2 : Rat) ^ q < (2 : Rat) ^ (53 : Int) ∧
      (q = -1074 ∨ (2 : Rat) ^ (52 : Int) ≤ v / (2 : Rat) ^ q) := by
  intro q
  obtain ⟨hlow, hhigh, -⟩ := h
  rw [mantissa_ofMantissaAndAccuracy] at hlow hhigh
  have hq : q = max ((m.log2 : Int) + 1 + e - 53) (-1074) := targetExponent_def m e
  rw [div_lt_iff₀ (two_zpow_pos q), le_div_iff₀ (two_zpow_pos q), ← two_zpow_add, ← two_zpow_add]
  rw [le_div_iff₀ (two_zpow_pos e)] at hlow
  rw [div_lt_iff₀ (two_zpow_pos e)] at hhigh
  have hle : ∀ {a b : Int}, a ≤ b → (2 : Rat) ^ a ≤ (2 : Rat) ^ b := fun hab =>
    zpow_le_zpow_right₀ (by norm_num) hab
  constructor
  · have hm : (m : Rat) + 1 ≤ (2 : Rat) ^ ((m.log2 : Int) + 1) := by
      have : m + 1 ≤ 2 ^ (m.log2 + 1) := Nat.lt_log2_self
      exact_mod_cast this
    calc v < (m + 1) * (2 : Rat) ^ e := hhigh
      _ ≤ (2 : Rat) ^ ((m.log2 : Int) + 1) * (2 : Rat) ^ e :=
        mul_le_mul_of_nonneg_right hm (two_zpow_pos e).le
      _ = (2 : Rat) ^ ((m.log2 : Int) + 1 + e) := (two_zpow_add _ e).symm
      _ ≤ (2 : Rat) ^ (53 + q) := hle (by omega)
  · by_cases hsmall : q = -1074
    · exact .inl hsmall
    · refine .inr ?_
      -- The scale is at least `e`, so the coefficient has its 53 bits already.
      have hpos : 0 < m := by
        rcases Nat.eq_zero_or_pos m with rfl | hpos
        · have : (0 : Nat).log2 = 0 := rfl
          omega
        · exact hpos
      calc (2 : Rat) ^ (52 + q) ≤ (2 : Rat) ^ ((m.log2 : Int) + e) := hle (by omega)
        _ = (2 : Rat) ^ (m.log2 : Int) * (2 : Rat) ^ e := two_zpow_add _ e
        _ ≤ m * (2 : Rat) ^ e :=
          mul_le_mul_of_nonneg_right (log2_spec hpos).1 (two_zpow_pos e).le
        _ ≤ v := hlow

/-- The coefficient in that scale. -/
theorem mantissa_bounds {q : Int} (h : Holds em q v)
    (hv : v / (2 : Rat) ^ q < (2 : Rat) ^ (53 : Int) ∧
      (q = -1074 ∨ (2 : Rat) ^ (52 : Int) ≤ v / (2 : Rat) ^ q)) :
    em.mantissa < 2 * leadingBit ∧ (leadingBit ≤ em.mantissa ∨ q = -1074) := by
  obtain ⟨hlow, hhigh, -⟩ := h
  constructor
  · have : (em.mantissa : Rat) < (2 * leadingBit : Nat) := by
      refine (hlow.trans_lt hv.1).trans_eq ?_
      norm_num [leadingBit]
    exact_mod_cast this
  · refine hv.2.symm.imp_left fun hlead => ?_
    have : ((leadingBit : Nat) : Rat) < (em.mantissa + 1 : Nat) := by
      rw [leadingBit_eq, Nat.cast_succ]
      exact hlead.trans_lt hhigh
    exact Nat.lt_succ_iff.mp (by exact_mod_cast this)

end

/-! ### The bound -/

section

variable {q : Int} {v : Rat}

theorem overflowBound_eq :
    overflowBound = ((2 : Rat) ^ (53 : Int) - 1 / 2) * (2 : Rat) ^ (971 : Int) := by
  have htop : (2 : Rat) ^ (1024 : Int) = (2 : Rat) ^ (53 : Int) * (2 : Rat) ^ (971 : Int) :=
    two_zpow_add 53 971
  have hhalf : (2 : Rat) ^ (971 : Int) = (2 : Rat) ^ (970 : Int) * 2 :=
    zpow_add_one₀ two_ne_zero 970
  rw [overflowBound, htop, hhalf]
  ring

theorem lt_overflowBound_iff :
    v < overflowBound ↔ v / (2 : Rat) ^ (971 : Int) < (2 : Rat) ^ (53 : Int) - 1 / 2 := by
  rw [overflowBound_eq, div_lt_iff₀ (two_zpow_pos 971)]

/-- What is below `2 ^ 1023` is far from the bound. -/
theorem lt_overflowBound (hq : q ≤ 970) (hv : v / (2 : Rat) ^ q < (2 : Rat) ^ (53 : Int)) :
    v < overflowBound := by
  rw [div_lt_iff₀ (two_zpow_pos q), ← two_zpow_add] at hv
  rw [lt_overflowBound_iff, div_lt_iff₀ (two_zpow_pos 971)]
  calc v < (2 : Rat) ^ (53 + q) := hv
    _ ≤ (2 : Rat) ^ (52 + 971 : Int) := zpow_le_zpow_right₀ (by norm_num) (by omega)
    _ = (2 : Rat) ^ (52 : Int) * (2 : Rat) ^ (971 : Int) := two_zpow_add 52 971
    _ ≤ _ := mul_le_mul_of_nonneg_right (by norm_num) (two_zpow_pos 971).le

theorem overflowBound_pos : 0 < overflowBound :=
  lt_overflowBound (q := 0) (by decide) (by norm_num)

/-- From one on, numbers are far from the smallest scale. -/
theorem le_scale_of_one_le (hv : v / (2 : Rat) ^ q < (2 : Rat) ^ (53 : Int)) (h1 : 1 ≤ v) :
    -52 ≤ q := by
  rw [div_lt_iff₀ (two_zpow_pos q), ← two_zpow_add] at hv
  have hlt : (2 : Rat) ^ (0 : Int) < (2 : Rat) ^ (53 + q) :=
    (zpow_zero (2 : Rat)).trans_lt (h1.trans_lt hv)
  have := two_zpow_lt_iff.mp hlt
  omega

/-- What is not below `2 ^ 1024` is beyond the bound. -/
theorem overflowBound_le (hq : 972 ≤ q) (hv : (2 : Rat) ^ (52 : Int) ≤ v / (2 : Rat) ^ q) :
    overflowBound ≤ v := by
  rw [le_div_iff₀ (two_zpow_pos q), ← two_zpow_add] at hv
  rw [overflowBound_eq]
  calc ((2 : Rat) ^ (53 : Int) - 1 / 2) * (2 : Rat) ^ (971 : Int)
      ≤ (2 : Rat) ^ (53 : Int) * (2 : Rat) ^ (971 : Int) :=
        mul_le_mul_of_nonneg_right (by norm_num) (two_zpow_pos 971).le
    _ = (2 : Rat) ^ (53 + 971 : Int) := (two_zpow_add 53 971).symm
    _ ≤ (2 : Rat) ^ (52 + q) := zpow_le_zpow_right₀ (by norm_num) (by omega)
    _ ≤ v := hv

/-- A number is below the bound exactly if its rounded coefficient, with the carry that rounding may
have made, still has one of the measurements' scales. -/
theorem scale_le_iff {em : ExtendedMantissa} (h : Holds em q v)
    (hv : v / (2 : Rat) ^ q < (2 : Rat) ^ (53 : Int) ∧
      (q = -1074 ∨ (2 : Rat) ^ (52 : Int) ≤ v / (2 : Rat) ^ q)) :
    (if em.roundedMantissa = 2 * leadingBit then q + 1 else q) ≤ 971 ↔ v < overflowBound := by
  rcases lt_trichotomy q 971 with hlt | rfl | hgt
  · exact ⟨fun _ => lt_overflowBound (by omega) hv.1, fun _ => by split <;> omega⟩
  · have hlead : (2 : Rat) ^ (53 : Int) = (2 * leadingBit : Nat) := by norm_num [leadingBit]
    obtain ⟨hmantissa, -⟩ := mantissa_bounds h hv
    rw [lt_overflowBound_iff, hlead]
    have hhigh := h.high
    have hhalf := h.half
    generalize v / (2 : Rat) ^ (971 : Int) = w at hhigh hhalf ⊢
    rcases roundedMantissa_cases em with ⟨hrounded, hodd⟩ | ⟨hrounded, hbit⟩
    · -- Nothing is carried: the largest coefficient is odd, so it is not at a tie either.
      rw [hrounded, if_neg (by omega)]
      refine ⟨fun _ => ?_, fun _ => le_rfl⟩
      rcases Nat.lt_or_ge (em.mantissa + 1) (2 * leadingBit) with hless | hmost
      · have : ((em.mantissa + 1 + 1 : Nat) : Rat) ≤ (2 * leadingBit : Nat) := by
          exact_mod_cast hless
        push_cast at this ⊢
        linarith
      · have heq : em.mantissa + 1 = 2 * leadingBit := by omega
        rw [hodd (by omega)] at hhalf
        have := not_le.mp (mt hhalf.mpr Bool.false_ne_true)
        rw [← heq]
        push_cast
        linarith
    · have hge := hhalf.mp hbit
      rw [hrounded]
      split
      · next heq =>
        refine ⟨fun hle => by omega, fun hlt => ?_⟩
        rw [← heq] at hlt
        push_cast at hlt
        linarith
      · next hne =>
        have : ((em.mantissa + 1 + 1 : Nat) : Rat) ≤ (2 * leadingBit : Nat) := by
          exact_mod_cast (by omega : em.mantissa + 1 + 1 ≤ 2 * leadingBit)
        refine ⟨fun _ => ?_, fun _ => le_rfl⟩
        push_cast at this ⊢
        linarith
  · have hle := overflowBound_le (by omega) (hv.2.resolve_left (by omega))
    exact ⟨fun h => by split at h <;> omega, fun h => absurd h (not_lt.mpr hle)⟩

end

/-! ### The rounded number -/

/-- After rounding, the coefficient is in its scale, unless a carry has given it one more bit. -/
theorem shiftToTargetExponent_rounded {r : Nat} {q : Int} (hr : r ≤ 2 * leadingBit)
    (hq : -1074 ≤ q) :
    shiftToTargetExponent Format.binary64 r q .exact =
      if r = 2 * leadingBit then (.ofMantissaAndAccuracy leadingBit .exact, q + 1)
      else (.ofMantissaAndAccuracy r .exact, q) := by
  unfold shiftToTargetExponent shiftToExponent
  rw [targetExponent_def]
  split
  · next h =>
    have hlog : r.log2 = 53 := by
      rw [h]
      decide
    have hshift : (max ((r.log2 : Int) + 1 + q - 53) (-1074) - q).toNat = 1 := by omega
    simp only [hshift]
    rw [h, Nat.mul_comm, ← pow_one 2, shiftRight_mul_two_pow]
    rfl
  · next h =>
    have hlog : r.log2 ≤ 52 := by
      rcases Nat.eq_zero_or_pos r with rfl | hpos
      · decide
      · have : r.log2 < 53 := (Nat.log2_lt hpos.ne').mpr (by unfold leadingBit at *; omega)
        omega
    have hshift : (max ((r.log2 : Int) + 1 + q - 53) (-1074) - q).toNat = 0 := by omega
    simp only [hshift]
    rw [Nat.cast_zero, add_zero]
    rfl

/-- A number of at least one keeps a coefficient of at least one. -/
theorem one_le_coefficient {m : Nat} {q : Int} (hm : leadingBit ≤ m) (hq : -52 ≤ q) :
    (1 : Rat) ≤ m * (2 : Rat) ^ q := by
  have hlead : (2 : Rat) ^ (52 : Int) ≤ m := by
    rw [← leadingBit_eq]
    exact_mod_cast hm
  calc (1 : Rat) = (2 : Rat) ^ (0 : Int) := (zpow_zero 2).symm
    _ ≤ (2 : Rat) ^ (52 + q) := zpow_le_zpow_right₀ (by norm_num) (by omega)
    _ = (2 : Rat) ^ (52 : Int) * (2 : Rat) ^ q := two_zpow_add 52 q
    _ ≤ m * (2 : Rat) ^ q := mul_le_mul_of_nonneg_right hlead (two_zpow_pos q).le

/-- **Rounding.** What is rounded to zero is small. Any other number gets a coefficient in one of
the measurements' scales, or in a larger one exactly if it is not below the bound. -/
theorem roundWithAccuracy_cases {m : Nat} {e : Int} {acc : Accuracy} {v : Rat} (s : Sign)
    (h : Holds (.ofMantissaAndAccuracy m acc) e v)
    (he : e ≤ Format.binary64.targetExponent (totalExponent m e)) :
    (roundWithAccuracy Format.binary64 s m e acc = .zero s ∧ v < 1) ∨
      ∃ m' q hpos, roundWithAccuracy Format.binary64 s m e acc = .finite s m' q hpos ∧
        (v < overflowBound → Canonical m' q) ∧ (q ≤ 971 ↔ v < overflowBound) ∧
        (1 ≤ v → (1 : Rat) ≤ m' * (2 : Rat) ^ q) := by
  have hv := target_bounds h he
  generalize hq : Format.binary64.targetExponent (totalExponent m e) = q at he hv
  have hlow : -1074 ≤ q := hq ▸ targetExponent_def m e ▸ le_max_right _ _
  have hshift : shiftToTargetExponent Format.binary64 m e acc =
      (ExtendedMantissa.ofMantissaAndAccuracy m acc >>> (q - e).toNat, q) := by
    unfold shiftToTargetExponent shiftToExponent
    simp only [hq]
    rw [Int.toNat_of_nonneg (by omega), add_sub_cancel]
  have hem := h.shiftRight (q - e).toNat
  rw [Int.toNat_of_nonneg (by omega), add_sub_cancel] at hem
  generalize ExtendedMantissa.ofMantissaAndAccuracy m acc >>> (q - e).toNat = em at hshift hem
  have hiff := scale_le_iff hem hv
  obtain ⟨hlt, hlead⟩ := mantissa_bounds hem hv
  obtain ⟨hge, hle⟩ : em.mantissa ≤ em.roundedMantissa ∧ em.roundedMantissa ≤ 2 * leadingBit := by
    rcases roundedMantissa_cases em with ⟨hr, -⟩ | ⟨hr, -⟩ <;> omega
  have hone : 1 ≤ v → -52 ≤ q := le_scale_of_one_le hv.1
  have hagain := shiftToTargetExponent_rounded hle hlow
  unfold roundWithAccuracy
  simp only [hshift, hagain]
  by_cases hcarry : em.roundedMantissa = 2 * leadingBit
  · simp only [if_pos hcarry, mantissa_ofMantissaAndAccuracy] at hiff ⊢
    refine .inr ⟨leadingBit, q + 1, by decide, dif_neg (by decide), fun hbound => ?_, hiff,
      fun h1 => one_le_coefficient le_rfl (by have := hone h1; omega)⟩
    exact ⟨by decide, by decide, by omega, hiff.mpr hbound, .inl le_rfl⟩
  · simp only [if_neg hcarry, mantissa_ofMantissaAndAccuracy] at hiff ⊢
    by_cases hzero : em.roundedMantissa = 0
    · refine .inl ⟨dif_pos hzero, ?_⟩
      by_contra hcon
      have hq52 := hone (not_lt.mp hcon)
      have := hlead.resolve_right (by omega)
      unfold leadingBit at *
      omega
    · refine .inr ⟨em.roundedMantissa, q, Nat.pos_of_ne_zero hzero, dif_neg hzero,
        fun hbound => ?_, hiff, fun h1 => ?_⟩
      · exact ⟨Nat.pos_of_ne_zero hzero, by omega, hlow, hiff.mpr hbound, hlead.imp_left hge.trans'⟩
      · have hq52 := hone h1
        exact one_le_coefficient ((hlead.resolve_right (by omega)).trans hge) hq52

/-- A coefficient in too large a scale is packed as an infinity. -/
theorem unpack_pack_of_large {m : Nat} {q : Int} (hm : 0 < m) (hq : 971 < q) (s : Sign) :
    (Float.Model.pack (.finite s m q hm)).unpack = .infinity s := by
  have hexponent : 2 ^ 11 ≤ (q + (1023 : Nat) + (52 : Nat)).toNat + 1 := by omega
  have hpack : UnpackedFloat.pack Format.binary64 (.finite s m q hm) =
      packedInfinity Format.binary64 s := if_pos hexponent
  change UnpackedFloat.unpack _ (UnpackedFloat.pack _ _) = _
  rw [hpack]
  cases s <;> rfl

theorem isFinite_pack_zero (s : Sign) : (Float.Model.pack (.zero s)).unpack.isFinite = true := by
  cases s <;> rfl

/-- What rounding gives is a finite measurement exactly if the number is below the bound. -/
theorem isFinite_roundWithAccuracy {m : Nat} {e : Int} {acc : Accuracy} {v : Rat} (s : Sign)
    (h : Holds (.ofMantissaAndAccuracy m acc) e v)
    (he : e ≤ Format.binary64.targetExponent (totalExponent m e)) :
    (Float.Model.pack (roundWithAccuracy Format.binary64 s m e acc)).unpack.isFinite = true ↔
      v < overflowBound := by
  rcases roundWithAccuracy_cases s h he with ⟨hzero, hv⟩ | ⟨m', q, hpos, hfinite, hc, hq, -⟩
  · have hbound : v < overflowBound := by
      refine lt_overflowBound (q := 0) (by decide) ?_
      rw [zpow_zero, div_one]
      exact hv.trans (by norm_num)
    rw [hzero]
    exact ⟨fun _ => hbound, fun _ => isFinite_pack_zero s⟩
  · rw [hfinite]
    by_cases hbound : v < overflowBound
    · rw [unpack_pack (hc hbound) s]
      exact ⟨fun _ => hbound, fun _ => rfl⟩
    · rw [unpack_pack_of_large hpos (by have := mt hq.mp hbound; omega) s]
      exact ⟨nofun, fun h => absurd h hbound⟩

theorem log2_mul_two_pow {n : Nat} (hn : 0 < n) (k : Nat) : (n * 2 ^ k).log2 = n.log2 + k := by
  induction k with
  | zero => rw [pow_zero, mul_one, Nat.add_zero]
  | succ k ih =>
    have hne : n * 2 ^ k ≠ 0 := (Nat.mul_pos hn (Nat.two_pow_pos k)).ne'
    rw [pow_succ', mul_left_comm, Nat.log2_two_mul hne, ih, Nat.add_assoc]

/-- A number without a rest is first brought to the scale in which it is rounded. -/
theorem isFinite_round {m : Nat} (hm : 0 < m) (e : Int) (s : Sign) :
    (Float.Model.pack (UnpackedFloat.round Format.binary64 s m e)).unpack.isFinite = true ↔
      (m : Rat) * (2 : Rat) ^ e < overflowBound := by
  unfold UnpackedFloat.round decreaseExponent
  simp only [Nat.shiftLeft_eq]
  generalize hk : (e - Format.binary64.targetExponent (totalExponent m e)).toNat = k
  have hvalue : ((m * 2 ^ k : Nat) : Rat) * (2 : Rat) ^ (e - k) = m * (2 : Rat) ^ e := by
    rw [zpow_sub₀ two_ne_zero, zpow_natCast]
    push_cast
    field_simp
  rw [← hvalue]
  refine isFinite_roundWithAccuracy s (holds_exact _ _) ?_
  have htarget := targetExponent_def (m * 2 ^ k) (e - k)
  rw [log2_mul_two_pow hm] at htarget
  have hbefore := targetExponent_def m e
  omega

theorem isFinite_normalize (M e : Int) :
    (Float.Model.pack (normalize Format.binary64 M e .positive)).unpack.isFinite = true ↔
      |(M : Rat) * (2 : Rat) ^ e| < overflowBound := by
  have habs : ∀ m : Nat, (m : Rat) * (2 : Rat) ^ e = |(m : Rat) * (2 : Rat) ^ e| := fun m =>
    (abs_of_nonneg (mul_nonneg (Nat.cast_nonneg m) (two_zpow_pos e).le)).symm
  unfold UnpackedFloat.normalize
  rcases lt_trichotomy M 0 with hneg | rfl | hpos
  · obtain ⟨m, rfl⟩ : ∃ m : Nat, M = -m := ⟨(-M).toNat, by omega⟩
    rw [Int.compare_eq_lt.mpr hneg, neg_neg, Int.toNat_natCast]
    simp only []
    rw [isFinite_round (by omega), habs]
    push_cast
    rw [neg_mul, abs_neg]
  · have hzero : |((0 : Int) : Rat) * (2 : Rat) ^ e| < overflowBound := by
      rw [Int.cast_zero, zero_mul, abs_zero]
      exact overflowBound_pos
    change (Float.Model.pack (.zero .positive)).unpack.isFinite = true ↔ _
    exact ⟨fun _ => hzero, fun _ => rfl⟩
  · obtain ⟨m, rfl⟩ : ∃ m : Nat, M = m := ⟨M.toNat, by omega⟩
    rw [Int.compare_eq_gt.mpr hpos, Int.toNat_natCast]
    simp only []
    rw [isFinite_round (by omega), habs, Int.cast_natCast]

/-! ## Measurements as numbers -/

/-- The number that a finite measurement is; zero for what is not finite. -/
def toRat (x : Float) : Rat :=
  match x.toModel.unpack with
  | .finite s m q _ => (s.apply m : Int) * (2 : Rat) ^ q
  | _ => 0

theorem toRat_of_finite {x : Float} {s : Sign} {m : Nat} {q : Int} {hm : 0 < m}
    (h : x.toModel.unpack = .finite s m q hm) : toRat x = (s.apply m : Int) * (2 : Rat) ^ q := by
  rw [toRat, h]

theorem abs_apply (s : Sign) (m : Nat) : |((s.apply m : Int) : Rat)| = m := by
  cases s with
  | negative =>
    change |((-(m : Int) : Int) : Rat)| = m
    push_cast
    rw [abs_neg, abs_of_nonneg (Nat.cast_nonneg m)]
  | positive => exact abs_of_nonneg (Nat.cast_nonneg m)

/-- A sign does not depend on the scale. -/
theorem apply_mul (s : Sign) {k m : Nat} {e q : Int}
    (h : (k : Rat) * (2 : Rat) ^ e = m * (2 : Rat) ^ q) :
    ((s.apply k : Int) : Rat) * (2 : Rat) ^ e = (s.apply m : Int) * (2 : Rat) ^ q := by
  cases s with
  | negative =>
    change ((-(k : Int) : Int) : Rat) * _ = ((-(m : Int) : Int) : Rat) * _
    push_cast
    rw [neg_mul, neg_mul, h]
  | positive => exact h

theorem abs_toRat {x : Float} {s : Sign} {m : Nat} {q : Int} {hm : 0 < m}
    (h : x.toModel.unpack = .finite s m q hm) : |toRat x| = m * (2 : Rat) ^ q := by
  rw [toRat_of_finite h, abs_mul, abs_apply, abs_of_pos (two_zpow_pos q)]

/-- The coefficient and the scale of a finite measurement are canonical. -/
theorem canonical_of_unpack {x : Float} {s : Sign} {m : Nat} {q : Int} {hm : 0 < m}
    (h : x.toModel.unpack = .finite s m q hm) : Canonical m q := by
  unfold Float.Model.unpack UnpackedFloat.unpack at h
  simp only [] at h
  generalize x.toModel.toBits.toBitVec = bits at h
  have hlt : (@unpackMantissa Format.binary64 bits).toNat < 2 ^ 52 := BitVec.isLt _
  have hexp : (@unpackExponent Format.binary64 bits).toNat < 2 ^ 11 := BitVec.isLt _
  have hbias : (Format.binary64.exponentBias : Int) = 1023 := rfl
  have hlead : leadingBit = 2 ^ 52 := rfl
  rw [hbias] at h
  split at h
  · split at h <;> cases h
  · next hmax =>
    have hmax : (@unpackExponent Format.binary64 bits).toNat ≠ 2047 :=
      fun heq => hmax (BitVec.eq_of_toNat_eq heq)
    split at h
    · next hzero =>
      split at h
      · cases h
      · injection h with _ hm' hq'
        have hexponent : (@unpackExponent Format.binary64 bits).toNat = 0 := by
          rw [hzero]
          rfl
        rw [hexponent] at hq'
        exact ⟨hm, by omega, by omega, by omega, .inr (by omega)⟩
    · next hne =>
      have hne : (@unpackExponent Format.binary64 bits).toNat ≠ 0 :=
        fun heq => hne (BitVec.eq_of_toNat_eq heq)
      injection h with _ hm' hq'
      rw [BitVec.toNat_append, ← Nat.shiftLeft_add_eq_or_of_lt (BitVec.isLt _), Nat.shiftLeft_eq]
        at hm'
      have hm' : 1 * 2 ^ 52 + _ = m := hm'
      exact ⟨hm, by omega, by omega, by omega, .inl (by omega)⟩

/-- A finite measurement is a zero or has a coefficient. -/
theorem unpack_of_isFinite {x : Float} (h : x.isFinite = true) :
    (∃ s, x.toModel.unpack = .zero s) ∨ ∃ s m q, ∃ hm, x.toModel.unpack = .finite s m q hm := by
  change x.toModel.unpack.isFinite = true at h
  cases hx : x.toModel.unpack with
  | infinity s => rw [hx] at h; cases h
  | notANumber => rw [hx] at h; cases h
  | zero s => exact .inl ⟨s, rfl⟩
  | finite s m q hm => exact .inr ⟨s, m, q, hm, rfl⟩

/-- Finite measurements are below the bound. -/
theorem abs_toRat_lt {x : Float} (h : x.isFinite = true) : |toRat x| < overflowBound := by
  rcases unpack_of_isFinite h with ⟨s, hx⟩ | ⟨s, m, q, hm, hx⟩
  · rw [toRat, hx, abs_zero]
    exact overflowBound_pos
  · have hc := canonical_of_unpack hx
    rw [abs_toRat hx, overflowBound_eq]
    calc (m : Rat) * (2 : Rat) ^ q
        ≤ m * (2 : Rat) ^ (971 : Int) :=
          mul_le_mul_of_nonneg_left (zpow_le_zpow_right₀ (by norm_num) hc.high) (Nat.cast_nonneg m)
      _ < ((2 : Rat) ^ (53 : Int) - 1 / 2) * (2 : Rat) ^ (971 : Int) :=
          mul_lt_mul_of_pos_right (by linarith [hc.add_one_le]) (two_zpow_pos 971)

theorem not_isFinite_pack {u : UnpackedFloat} (h : u.isFinite = false) :
    (Float.Model.pack u).unpack.isFinite = false := by
  cases u with
  | infinity s => cases s <;> rfl
  | notANumber => rfl
  | zero s => cases h
  | finite s m q hm => cases h

/-- Packing a measurement again keeps it finite. -/
theorem isFinite_repacked {x : Float} (h : x.isFinite = true) :
    (Float.Model.pack x.toModel.unpack).unpack.isFinite = true := by
  rcases unpack_of_isFinite h with ⟨s, hx⟩ | ⟨s, m, q, hm, hx⟩
  · rw [hx]
    exact isFinite_pack_zero s
  · rw [hx, unpack_pack (canonical_of_unpack hx) s]
    rfl

/-! ## Sums -/

/-- What is not finite stays so in a sum. -/
theorem not_isFinite_add {a b : UnpackedFloat} (h : ¬ (a.isFinite = true ∧ b.isFinite = true)) :
    (UnpackedFloat.add Format.binary64 a b).isFinite = false := by
  cases a with
  | notANumber => rfl
  | infinity s =>
    cases b with
    | infinity t => cases s <;> cases t <;> rfl
    | notANumber => rfl
    | zero t => rfl
    | finite t m q hm => rfl
  | zero s =>
    cases b with
    | infinity t => rfl
    | notANumber => rfl
    | zero t => exact absurd ⟨rfl, rfl⟩ h
    | finite t m q hm => exact absurd ⟨rfl, rfl⟩ h
  | finite s m q hm =>
    cases b with
    | infinity t => rfl
    | notANumber => rfl
    | zero t => exact absurd ⟨rfl, rfl⟩ h
    | finite t m q hm => exact absurd ⟨rfl, rfl⟩ h

/-- **A sum is finite** exactly if what is added is and the exact sum is below the bound. -/
theorem isFinite_add_iff (x y : Float) :
    (x + y).isFinite = true ↔
      (x.isFinite = true ∧ y.isFinite = true) ∧ |toRat x + toRat y| < overflowBound := by
  change (Float.Model.pack (UnpackedFloat.add Format.binary64 x.toModel.unpack
    y.toModel.unpack)).unpack.isFinite = true ↔ _
  by_cases hfinite : x.isFinite = true ∧ y.isFinite = true
  · have hboundx := abs_toRat_lt hfinite.1
    have hboundy := abs_toRat_lt hfinite.2
    have hpackx := isFinite_repacked hfinite.1
    have hpacky := isFinite_repacked hfinite.2
    rw [and_iff_right hfinite]
    rcases unpack_of_isFinite hfinite.1 with ⟨s, hx⟩ | ⟨s, m, q, hm, hx⟩
    · have hzero : toRat x = 0 := by rw [toRat, hx]
      rw [hzero, zero_add, hx]
      refine ⟨fun _ => hboundy, fun _ => ?_⟩
      rcases unpack_of_isFinite hfinite.2 with ⟨t, hy⟩ | ⟨t, n, r, hn, hy⟩
      · rw [hy]
        cases s <;> cases t <;> rfl
      · rw [hy] at hpacky ⊢
        exact hpacky
    · rcases unpack_of_isFinite hfinite.2 with ⟨t, hy⟩ | ⟨t, n, r, hn, hy⟩
      · have hzero : toRat y = 0 := by rw [toRat, hy]
        rw [hzero, add_zero, hy]
        refine ⟨fun _ => hboundx, fun _ => ?_⟩
        rw [hx] at hpackx ⊢
        exact hpackx
      · -- In the smaller one of the two scales the coefficients are added exactly.
        have hexact : ((s.apply (decreaseExponent m q (min q r)).1 +
            t.apply (decreaseExponent n r (min q r)).1 : Int) : Rat) * (2 : Rat) ^ min q r =
              toRat x + toRat y := by
          rw [toRat_of_finite hx, toRat_of_finite hy, Int.cast_add, add_mul,
            apply_mul s (decreaseExponent_value m (min_le_left q r)),
            apply_mul t (decreaseExponent_value n (min_le_right q r))]
        rw [hx, hy, ← hexact]
        exact isFinite_normalize _ _
  · rw [not_isFinite_pack (not_isFinite_add hfinite)]
    exact ⟨nofun, fun h => absurd h.1 hfinite⟩

/-! ## Quotients -/

/-- The whole part of a quotient has at least as many bits as the logarithms say. -/
theorem log2_le_log2_div {m n : Nat} (hm : 0 < m) (hn : 0 < n) (k : Nat) :
    (m.log2 : Int) + k - n.log2 ≤ (m * 2 ^ k / n).log2 + 1 := by
  have hd : (0 : Rat) < n := by exact_mod_cast hn
  have hmk : 0 < m * 2 ^ k := Nat.mul_pos hm (Nat.two_pow_pos k)
  have hlow := (log2_spec hmk).1
  have hhigh := (log2_spec hn).2
  rw [log2_mul_two_pow hm] at hlow
  have hwhole : m * 2 ^ k < n * 2 ^ ((m * 2 ^ k / n).log2 + 1) :=
    (Nat.lt_mul_div_succ _ hn).trans_le (Nat.mul_le_mul_left n Nat.lt_log2_self)
  have hlt : (2 : Rat) ^ ((m.log2 : Int) + k) <
      (2 : Rat) ^ ((n.log2 : Int) + 1 + ((m * 2 ^ k / n).log2 + 1)) := by
    calc (2 : Rat) ^ ((m.log2 : Int) + k) ≤ (m * 2 ^ k : Nat) := by exact_mod_cast hlow
      _ < (n * 2 ^ ((m * 2 ^ k / n).log2 + 1) : Nat) := by exact_mod_cast hwhole
      _ = n * (2 : Rat) ^ (((m * 2 ^ k / n).log2 : Int) + 1) := by push_cast; norm_cast
      _ ≤ (2 : Rat) ^ ((n.log2 : Int) + 1) * (2 : Rat) ^ (((m * 2 ^ k / n).log2 : Int) + 1) :=
        mul_le_mul_of_nonneg_right hhigh.le (two_zpow_pos _).le
      _ = _ := (two_zpow_add _ _).symm
  have := two_zpow_lt_iff.mp hlt
  omega

/-- A quotient of coefficients is rounded with enough bits. -/
theorem isFinite_divCore {m n : Nat} (hm : 0 < m) (hn : 0 < n) (q r : Int) (s : Sign) :
    let d := divCore Format.binary64 m q n r
    (Float.Model.pack (roundWithAccuracy Format.binary64 s d.1 d.2.1 d.2.2)).unpack.isFinite =
        true ↔
      (m : Rat) * (2 : Rat) ^ q / (n * (2 : Rat) ^ r) < overflowBound := by
  unfold divCore
  simp only [Nat.shiftLeft_eq]
  generalize he : min (q - r)
    (Format.binary64.targetExponent (totalExponent m q - totalExponent n r)) = e
  obtain ⟨k, hk⟩ : ∃ k : Nat, q - r = e + k := ⟨(q - r - e).toNat, by omega⟩
  have hshift : (q - r - e).toNat = k := by omega
  rw [hshift]
  have hvalue : ((m * 2 ^ k : Nat) : Rat) / n * (2 : Rat) ^ e =
      m * (2 : Rat) ^ q / (n * (2 : Rat) ^ r) := by
    have hq : q = e + k + r := by omega
    have hd : (n : Rat) ≠ 0 := by exact_mod_cast hn.ne'
    have hr := (two_zpow_pos r).ne'
    rw [hq, two_zpow_add, two_zpow_add, zpow_natCast]
    push_cast
    field_simp
  rw [← hvalue]
  refine isFinite_roundWithAccuracy s (holds_fraction _ hn e) ?_
  have hlog := log2_le_log2_div hm hn k
  have htarget : Format.binary64.targetExponent (totalExponent m q - totalExponent n r) =
    max ((m.log2 : Int) + 1 + q - ((n.log2 : Int) + 1 + r) - 53) (-1074) := rfl
  rw [targetExponent_def]
  omega

/-- What is no finite number stays so in a quotient, and so does what is divided by zero. -/
theorem not_isFinite_div {a b : UnpackedFloat}
    (h : a.isFinite = false ∨ b.isNaN = true ∨ ∃ s, b = .zero s) :
    (UnpackedFloat.div Format.binary64 a b).isFinite = false := by
  cases a with
  | notANumber => rfl
  | infinity s => cases b <;> rfl
  | zero s =>
    rcases h with h | h | ⟨t, rfl⟩
    · cases h
    · cases b <;> first | rfl | cases h
    · rfl
  | finite s m q hm =>
    rcases h with h | h | ⟨t, rfl⟩
    · cases h
    · cases b <;> first | rfl | cases h
    · rfl

theorem toRat_eq_zero_iff {x : Float} (h : x.isFinite = true) :
    toRat x = 0 ↔ x = 0.0 ∨ x = -0.0 := by
  rw [← beq_zero_iff, beq_zero_iff_unpack]
  rcases unpack_of_isFinite h with ⟨s, hx⟩ | ⟨s, m, q, hm, hx⟩
  · rw [toRat, hx]
    exact ⟨fun _ => ⟨s, rfl⟩, fun _ => rfl⟩
  · have hpos : (0 : Rat) < m := by exact_mod_cast hm
    have hne : |toRat x| ≠ 0 := by
      rw [abs_toRat hx]
      exact (mul_pos hpos (two_zpow_pos q)).ne'
    rw [hx]
    exact ⟨fun hzero => absurd (abs_eq_zero.mpr hzero) hne, nofun⟩

/-- **A quotient is finite** exactly if the dividend is, the divisor is a number and no zero, and
the exact quotient is below the bound if the divisor is finite. -/
theorem isFinite_div_iff (x y : Float) :
    (x / y).isFinite = true ↔ x.isFinite = true ∧ y.isNaN = false ∧ (y ≠ 0.0 ∧ y ≠ -0.0) ∧
      (y.isFinite = true → |toRat x / toRat y| < overflowBound) := by
  change (Float.Model.pack (UnpackedFloat.div Format.binary64 x.toModel.unpack
    y.toModel.unpack)).unpack.isFinite = true ↔ _
  rw [← not_or, ← beq_zero_iff, beq_zero_iff_unpack]
  by_cases hbad : x.isFinite = false ∨ y.isNaN = true ∨ ∃ s, y.toModel.unpack = .zero s
  · rw [not_isFinite_pack (not_isFinite_div hbad)]
    refine ⟨nofun, fun ⟨hx, hy, hzero, _⟩ => ?_⟩
    rcases hbad with h | h | h
    · exact absurd (h.symm.trans hx) nofun
    · exact absurd (hy.symm.trans h) nofun
    · exact absurd h hzero
  · obtain ⟨hx, hy, hzero⟩ := by simpa only [not_or] using hbad
    have hx := Bool.eq_true_of_not_eq_false hx
    have hy := Bool.eq_false_of_not_eq_true hy
    rw [and_iff_right hx, and_iff_right hy, and_iff_right hzero]
    by_cases hfinite : y.isFinite = true
    · rw [forall_prop_of_true hfinite]
      obtain ⟨t, n, r, hn, hyu⟩ := (unpack_of_isFinite hfinite).resolve_left hzero
      rcases unpack_of_isFinite hx with ⟨s, hxu⟩ | ⟨s, m, q, hm, hxu⟩
      · have hvalue : toRat x = 0 := by rw [toRat, hxu]
        rw [hxu, hyu, hvalue, zero_div, abs_zero]
        exact ⟨fun _ => overflowBound_pos, fun _ => isFinite_pack_zero (s / t)⟩
      · rw [abs_div, abs_toRat hxu, abs_toRat hyu, hxu, hyu]
        exact isFinite_divCore hm hn q r (s / t)
    · -- A finite number divided by an infinity is a zero.
      refine ⟨fun _ h => absurd h hfinite, fun _ => ?_⟩
      have hinf : y.toModel.unpack.isInf = true :=
        (isFinite_eq_false_iff.mp (Bool.eq_false_of_not_eq_true hfinite)).resolve_right
          (by rw [hy]; nofun)
      cases hyu : y.toModel.unpack with
      | infinity t =>
        rcases unpack_of_isFinite hx with ⟨s, hxu⟩ | ⟨s, m, q, hm, hxu⟩
        · rw [hxu]
          exact isFinite_pack_zero (s / t)
        · rw [hxu]
          exact isFinite_pack_zero (s / t)
      | notANumber => rw [hyu] at hinf; cases hinf
      | zero t => rw [hyu] at hinf; cases hinf
      | finite t n r hn => rw [hyu] at hinf; cases hinf

/-! ## Means -/

/-- A large whole number is rounded. -/
theorem ofNat_of_large {n : Nat} (hn : 2 ^ 53 < n) :
    (Float.ofNat n).toModel =
      .pack (roundWithAccuracy Format.binary64 .positive (n * 2 ^ 53) (-53) .exact) := by
  have hlow : ¬ (0 : Int) < -((2 : Int) ^ Format.binary64.exponentBits + n.log2) := by
    have : (0 : Int) < (2 : Int) ^ Format.binary64.exponentBits := by positivity
    omega
  change (Float.ofScientific n false 0).toModel = _
  unfold Float.ofScientific
  rw [dif_neg (by omega)]
  change Float.Model.pack (UnpackedFloat.ofScientific Format.binary64 n 0) = _
  unfold UnpackedFloat.ofScientific
  rw [dif_neg (by omega), if_neg (by decide), if_neg hlow, if_pos le_rfl]
  change Float.Model.pack
    (roundWithAccuracy Format.binary64 .positive (n <<< 53 * 1) (-53) .exact) = _
  rw [mul_one, Nat.shiftLeft_eq]

/-- The measurement of a positive whole number is at least one, or an infinity. -/
theorem one_le_ofNat {n : Nat} (hn : 0 < n) :
    (Float.ofNat n).isNaN = false ∧
      ((Float.ofNat n).isFinite = true → 1 ≤ toRat (Float.ofNat n)) := by
  change (Float.ofNat n).toModel.unpack.isNaN = false ∧
    ((Float.ofNat n).toModel.unpack.isFinite = true → _)
  rcases Nat.lt_or_ge (2 ^ 53) n with hlarge | hsmall
  · have hvalue : ((n * 2 ^ 53 : Nat) : Rat) * (2 : Rat) ^ (-53 : Int) = n := by
      rw [zpow_neg]
      push_cast
      norm_num
      ring
    have hholds := holds_exact (n * 2 ^ 53) (-53)
    rw [hvalue] at hholds
    have htarget : -53 ≤ Format.binary64.targetExponent (totalExponent (n * 2 ^ 53) (-53)) := by
      rw [targetExponent_def, log2_mul_two_pow hn]
      omega
    have hone : (1 : Rat) ≤ n := by exact_mod_cast hn
    have hmodel := ofNat_of_large hlarge
    rcases roundWithAccuracy_cases .positive hholds htarget with
      ⟨-, hlt⟩ | ⟨m, q, hm, hrounded, hc, hq, hge⟩
    · exact absurd hlt (not_lt.mpr hone)
    · rw [hrounded] at hmodel
      by_cases hbound : (n : Rat) < overflowBound
      · have hx : (Float.ofNat n).toModel.unpack = .finite .positive m q hm := by
          rw [hmodel, unpack_pack (hc hbound)]
        rw [toRat_of_finite hx, hx]
        exact ⟨rfl, fun _ => hge hone⟩
      · have hx : (Float.ofNat n).toModel.unpack = .infinity .positive := by
          rw [hmodel, unpack_pack_of_large hm (by have := mt hq.mp hbound; omega)]
        rw [hx]
        exact ⟨rfl, nofun⟩
  · obtain ⟨m, q, hc, hx, hvalue⟩ := represents_ofNat hn hsmall
    rw [toRat_of_finite hx, hx]
    refine ⟨rfl, fun _ => ?_⟩
    change (1 : Rat) ≤ (m : Rat) * (2 : Rat) ^ q
    rw [hvalue]
    exact_mod_cast hn

/-- Dividing by how many there are neither makes a sum finite nor takes that away. -/
theorem isFinite_div_ofNat_iff (x : Float) {n : Nat} (hn : 0 < n) :
    (x / Float.ofNat n).isFinite = true ↔ x.isFinite = true := by
  obtain ⟨hnan, hone⟩ := one_le_ofNat hn
  rw [isFinite_div_iff]
  refine ⟨And.left, fun hx => ⟨hx, hnan, ?_, fun hfinite => ?_⟩⟩
  · rw [← not_or]
    intro hzero
    have hfinite : (Float.ofNat n).isFinite = true := by
      rcases hzero with h | h <;> rw [h] <;> rfl
    have := hone hfinite
    rw [(toRat_eq_zero_iff hfinite).mpr hzero] at this
    exact absurd this (by norm_num)
  · have hge := hone hfinite
    rw [abs_div, abs_of_pos (zero_lt_one.trans_le hge)]
    exact (div_le_self (abs_nonneg _) hge).trans_lt (abs_toRat_lt hx)

/-- What the first measurements add up to, one after the other. -/
def partialSum (values : List Float) (k : Nat) : Float := (values.take k).foldl (· + ·) 0.0

/-- **A sum of many measurements is finite** exactly if all of them are and no step, added exactly,
reaches the bound. -/
theorem isFinite_sum_iff (values : List Float) :
    (values.foldl (· + ·) 0.0).isFinite = true ↔ ∀ k x, values[k]? = some x →
      x.isFinite = true ∧ |toRat (partialSum values k) + toRat x| < overflowBound := by
  induction values using List.reverseRecOn with
  | nil => exact ⟨fun _ _ _ h => absurd h (by simp), fun _ => rfl⟩
  | append_singleton values x ih =>
    have hlast : partialSum (values ++ [x]) values.length = values.foldl (· + ·) 0.0 := by
      rw [partialSum, List.take_left]
    have hbefore : ∀ {k}, k < values.length → partialSum (values ++ [x]) k = partialSum values k :=
      fun hk => by rw [partialSum, List.take_append_of_le_length (Nat.le_of_lt hk), partialSum]
    rw [List.foldl_concat, isFinite_add_iff, ih]
    constructor
    · rintro ⟨⟨hall, hx⟩, hsum⟩ k y hy
      rcases Nat.lt_trichotomy k values.length with hk | rfl | hk
      · rw [List.getElem?_append_left hk] at hy
        rw [hbefore hk]
        exact hall k y hy
      · rw [List.getElem?_concat_length] at hy
        obtain rfl := Option.some.inj hy
        rw [hlast]
        exact ⟨hx, hsum⟩
      · rw [List.getElem?_eq_none (by simp; omega)] at hy
        cases hy
    · intro h
      obtain ⟨hx, hsum⟩ := h values.length x List.getElem?_concat_length
      rw [hlast] at hsum
      refine ⟨⟨fun k y hy => ?_, hx⟩, hsum⟩
      obtain ⟨hk, -⟩ := List.getElem?_eq_some_iff.mp hy
      rw [← hbefore hk]
      exact h k y (by rw [List.getElem?_append_left hk, hy])

end BenchRatio.Binary64
