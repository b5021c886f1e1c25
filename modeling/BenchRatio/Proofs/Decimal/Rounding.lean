import BenchRatio.Decimal.Shortest
import Mathlib.Algebra.Order.Field.Power
import Mathlib.Data.Rat.Cast.Order
import Mathlib.Tactic.Linarith
import Mathlib.Tactic.NormNum
import Mathlib.Tactic.Positivity
import Mathlib.Tactic.FieldSimp
import Mathlib.Tactic.Ring

/-!
# Rounding to the nearest measurement

A finite positive measurement is `m * 2 ^ q` for one canonical pair, and the numbers nearest to it
form the interval that the shortest decimal is searched in. Values are exact rationals here.

* `floorLog2_spec`: the binary logarithm of a fraction is exact.
* `roundHalfEven_eq`: when a fraction rounds to a given whole number.
* `nearestBits_eq`: **every number in the interval of a measurement rounds to its bits**.
-/

namespace BenchRatio

/-- Whether a value, in the interval's unit, belongs to the interval. -/
def Decimal.Interval.Contains (i : Interval) (w : Rat) : Prop :=
  (i.low : Rat) ≤ w ∧ w ≤ i.high ∧ (i.closed = false → (i.low : Rat) ≠ w ∧ w ≠ i.high)

namespace Binary64

open Decimal (Interval)

/-! ## Canonical pairs -/

/-- A coefficient and a scale that a finite positive measurement has: the leading bit is there
unless the scale is the smallest one. -/
structure Canonical (m : Nat) (q : Int) : Prop where
  pos : 0 < m
  lt : m < 2 * leadingBit
  low : -1074 ≤ q
  high : q ≤ 971
  leading : leadingBit ≤ m ∨ q = -1074

/-- The bits below the sign of the measurement `m * 2 ^ q`. -/
def bitsOf (m : Nat) (q : Int) : Nat := (q + 1074).toNat * leadingBit + m

theorem bitsOf_lt {m : Nat} {q : Int} (h : Canonical m q) : bitsOf m q < infinityBits := by
  have hm := h.lt
  have hq := h.high
  unfold bitsOf infinityBits leadingBit at *
  omega

/-! ## Powers -/

theorem two_zpow_pos (e : Int) : (0 : Rat) < (2 : Rat) ^ e := zpow_pos (by norm_num) e

/-- A power with a whole exponent, as the quotient of two natural ones. -/
theorem pow_toNat {b : Rat} (hb : b ≠ 0) (e : Int) : b ^ e.toNat = b ^ e * b ^ (-e).toNat := by
  rw [← zpow_natCast, ← zpow_natCast, ← zpow_add₀ hb]
  congr 1
  omega

theorem two_zpow_lt_iff {a b : Int} : (2 : Rat) ^ a < (2 : Rat) ^ b ↔ a < b :=
  zpow_lt_zpow_iff_right₀ (by norm_num)

theorem two_zpow_add (a b : Int) : (2 : Rat) ^ (a + b) = (2 : Rat) ^ a * (2 : Rat) ^ b :=
  zpow_add₀ (by norm_num) a b

theorem leadingBit_eq : (leadingBit : Rat) = (2 : Rat) ^ (52 : Int) := by norm_num [leadingBit]

theorem Canonical.add_one_le {m : Nat} {q : Int} (h : Canonical m q) :
    (m : Rat) + 1 ≤ (2 : Rat) ^ (53 : Int) := by
  have hm : (m : Rat) + 1 ≤ ((2 * leadingBit : Nat) : Rat) := by exact_mod_cast h.lt
  refine hm.trans_eq ?_
  norm_num [leadingBit]

/-! ## The logarithm -/

/-- The binary logarithm of a natural number, as bounds on the number. -/
theorem log2_spec {n : Nat} (hn : 0 < n) :
    (2 : Rat) ^ (n.log2 : Int) ≤ n ∧ (n : Rat) < (2 : Rat) ^ ((n.log2 : Int) + 1) := by
  constructor
  · rw [zpow_natCast]
    exact_mod_cast Nat.log2_self_le (by omega)
  · have h : ((n.log2 : Int) + 1) = ((n.log2 + 1 : Nat) : Int) := by push_cast; rfl
    rw [h, zpow_natCast]
    exact_mod_cast Nat.lt_log2_self

/-- The test of `floorLog2` compares the fraction with a power of two. -/
theorem mul_pow_le_iff {num den : Nat} (hden : 0 < den) (e : Int) :
    den * Nat.pow 2 e.toNat ≤ num * Nat.pow 2 (-e).toNat ↔ (2 : Rat) ^ e ≤ (num : Rat) / den := by
  have hd : (0 : Rat) < den := by exact_mod_cast hden
  have hp : (0 : Rat) < (2 : Rat) ^ (-e).toNat := by positivity
  rw [le_div_iff₀ hd, ← Nat.cast_le (α := Rat)]
  simp only [Nat.pow_eq]
  push_cast
  rw [pow_toNat two_ne_zero e]
  constructor
  · intro h
    refine le_of_mul_le_mul_right ?_ hp
    linarith
  · intro h
    have := mul_le_mul_of_nonneg_right h hp.le
    linarith

theorem floorLog2_spec {num den : Nat} (hnum : 0 < num) (hden : 0 < den) :
    (2 : Rat) ^ floorLog2 num den ≤ (num : Rat) / den ∧
      (num : Rat) / den < (2 : Rat) ^ (floorLog2 num den + 1) := by
  obtain ⟨hn1, hn2⟩ := log2_spec hnum
  obtain ⟨hd1, hd2⟩ := log2_spec hden
  have hd : (0 : Rat) < den := by exact_mod_cast hden
  have hb := two_zpow_pos (den.log2 : Int)
  have hb' := two_zpow_pos ((den.log2 : Int) + 1)
  -- The quotient of the two logarithms' powers is off by less than a factor of two each way.
  have hlow : (2 : Rat) ^ ((num.log2 : Int) - den.log2 - 1) ≤ (num : Rat) / den := by
    rw [le_div_iff₀ hd]
    calc (2 : Rat) ^ ((num.log2 : Int) - den.log2 - 1) * den
        ≤ (2 : Rat) ^ ((num.log2 : Int) - den.log2 - 1) * (2 : Rat) ^ ((den.log2 : Int) + 1) :=
          mul_le_mul_of_nonneg_left hd2.le (two_zpow_pos _).le
      _ = (2 : Rat) ^ (num.log2 : Int) := by rw [← two_zpow_add]; congr 1; omega
      _ ≤ num := hn1
  have hhigh : (num : Rat) / den < (2 : Rat) ^ ((num.log2 : Int) - den.log2 + 1) := by
    rw [div_lt_iff₀ hd]
    calc (num : Rat) < (2 : Rat) ^ ((num.log2 : Int) + 1) := hn2
      _ = (2 : Rat) ^ ((num.log2 : Int) - den.log2 + 1) * (2 : Rat) ^ (den.log2 : Int) := by
          rw [← two_zpow_add]; congr 1; omega
      _ ≤ (2 : Rat) ^ ((num.log2 : Int) - den.log2 + 1) * den :=
          mul_le_mul_of_nonneg_left hd1 (two_zpow_pos _).le
  unfold floorLog2
  simp only []
  split
  · next h => exact ⟨(mul_pow_le_iff hden _).mp h, hhigh⟩
  · next h =>
    rw [mul_pow_le_iff hden, not_le] at h
    exact ⟨hlow, by rwa [Int.sub_add_cancel]⟩

/-! ## One rounding -/

/-- Within half a unit of a whole number, the floor is that number or the one below it. -/
theorem floor_of_close {num den k : Nat} (hden : 0 < den)
    (hlow : 2 * k * den ≤ 2 * num + den) (hhigh : 2 * num ≤ 2 * k * den + den) :
    k = num / den ∨ k = num / den + 1 := by
  have hdiv := Nat.div_add_mod num den
  have hmod := Nat.mod_lt num hden
  generalize num / den = j at *
  have hj : 2 * j * den = 2 * (den * j) := by ring
  have hbelow : 2 * j < 2 * k + 2 := by
    by_contra hcon
    have := Nat.mul_le_mul_right den (Nat.le_of_not_lt hcon)
    have : (2 * k + 2) * den = 2 * k * den + 2 * den := by ring
    omega
  have habove : 2 * k < 2 * j + 3 := by
    by_contra hcon
    have := Nat.mul_le_mul_right den (Nat.le_of_not_lt hcon)
    have : (2 * j + 3) * den = 2 * j * den + 3 * den := by ring
    omega
  omega

/-- A fraction rounds to the whole number `k` if it is within half of it, where a half counts only
for an even `k`. -/
theorem roundHalfEven_eq {num den k : Nat} (hden : 0 < den)
    (hlow : 2 * k * den ≤ 2 * num + den) (hhigh : 2 * num ≤ 2 * k * den + den)
    (hodd : k % 2 = 1 → 2 * k * den ≠ 2 * num + den ∧ 2 * num ≠ 2 * k * den + den) :
    roundHalfEven num den = k := by
  have hfloor := floor_of_close hden hlow hhigh
  have hdiv := Nat.div_add_mod num den
  have hmod := Nat.mod_lt num hden
  unfold roundHalfEven
  simp only []
  generalize num / den = j at *
  generalize num % den = r at *
  rcases hfloor with rfl | rfl
  · have hc : 2 * k * den = 2 * (den * k) := by ring
    split
    · rfl
    · split
      · omega
      · have : k % 2 = 0 := by
          by_contra hcon
          have := (hodd (by omega)).2
          omega
        omega
  · have hc : 2 * (j + 1) * den = 2 * (den * j) + 2 * den := by ring
    split
    · omega
    · split
      · rfl
      · have : (j + 1) % 2 = 0 := by
          by_contra hcon
          have := (hodd (by omega)).1
          omega
        omega

/-- The same for a fraction as a rational number. -/
theorem roundHalfEven_eq_of_abs {num den k : Nat} (hden : 0 < den)
    (hlow : (k : Rat) - 1 / 2 ≤ (num : Rat) / den) (hhigh : (num : Rat) / den ≤ k + 1 / 2)
    (hodd : k % 2 = 1 → (k : Rat) - 1 / 2 ≠ (num : Rat) / den ∧ (num : Rat) / den ≠ k + 1 / 2) :
    roundHalfEven num den = k := by
  have hd : (0 : Rat) < den := by exact_mod_cast hden
  have hv : (num : Rat) / den * den = num := div_mul_cancel₀ _ hd.ne'
  generalize (num : Rat) / den = v at *
  apply roundHalfEven_eq hden
  · have : (2 * k * den : Rat) ≤ 2 * num + den := by
      rw [← hv]
      have := mul_le_mul_of_nonneg_right hlow hd.le
      linarith
    exact_mod_cast this
  · have : (2 * num : Rat) ≤ 2 * k * den + den := by
      rw [← hv]
      have := mul_le_mul_of_nonneg_right hhigh hd.le
      linarith
    exact_mod_cast this
  · intro hk
    obtain ⟨h1, h2⟩ := hodd hk
    constructor
    · intro heq
      have heq' : (2 * k * den : Rat) = 2 * num + den := by exact_mod_cast heq
      rw [← hv] at heq'
      exact h1 (mul_right_cancel₀ hd.ne' (by linarith))
    · intro heq
      have heq' : (2 * num : Rat) = 2 * k * den + den := by exact_mod_cast heq
      rw [← hv] at heq'
      exact h2 (mul_right_cancel₀ hd.ne' (by linarith))

/-! ## The interval of a measurement -/

/-- The value belongs to the interval of the numbers nearest to `m * 2 ^ q`. -/
def Near (m : Nat) (q : Int) (v : Rat) : Prop :=
  (Interval.ofFinite m q).Contains (v / (2 : Rat) ^ (q - 2))

/-- The interval as bounds on the value in units of `2 ^ q`: half a unit each way, and only a
quarter below the first number of a scale. -/
theorem Near.bounds {m : Nat} {q : Int} {v : Rat} (h : Near m q v) (hm : 0 < m) :
    (m : Rat) - 1 / 2 ≤ v / (2 : Rat) ^ q ∧ v / (2 : Rat) ^ q ≤ m + 1 / 2 ∧
      (m % 2 = 1 → (m : Rat) - 1 / 2 ≠ v / (2 : Rat) ^ q ∧ v / (2 : Rat) ^ q ≠ m + 1 / 2) ∧
      (m = leadingBit → -1074 < q → (m : Rat) - 1 / 4 ≤ v / (2 : Rat) ^ q) := by
  have hscale : v / (2 : Rat) ^ (q - 2) = 4 * (v / (2 : Rat) ^ q) := by
    rw [zpow_sub₀ (by norm_num)]
    field_simp
    norm_num
  obtain ⟨hlow, hhigh, hopen⟩ := h
  rw [hscale] at hlow hhigh hopen
  generalize v / (2 : Rat) ^ q = w at *
  have hh : ((Interval.ofFinite m q).high : Rat) = 4 * m + 2 := by
    simp [Interval.ofFinite]
  have hl : ((Interval.ofFinite m q).low : Rat) =
      if m = leadingBit ∧ -1074 < q then 4 * (m : Rat) - 1 else 4 * m - 2 := by
    unfold Interval.ofFinite
    simp only []
    split
    · rw [Nat.cast_sub (by omega)]
      push_cast
      rfl
    · rw [Nat.cast_sub (by omega)]
      push_cast
      rfl
  rw [hl] at hlow hopen
  rw [hh] at hhigh hopen
  refine ⟨?_, by linarith, fun hodd => ?_, fun hlead hq => ?_⟩
  · split at hlow <;> linarith
  · have hne : ¬ (m = leadingBit ∧ -1074 < q) := by
      rintro ⟨rfl, -⟩
      exact absurd hodd (by decide)
    rw [if_neg hne] at hopen
    obtain ⟨h1, h2⟩ := hopen (by simp [Interval.ofFinite]; omega)
    exact ⟨fun e => h1 (by linarith), fun e => h2 (by linarith)⟩
  · rw [if_pos ⟨hlead, hq⟩] at hlow
    linarith

/-- Dividing a fraction by a power of two, on either side of the stroke. -/
theorem scaled_div (num : Nat) {den : Nat} (hden : 0 < den) (q : Int) :
    ((num * Nat.pow 2 (-q).toNat : Nat) : Rat) / ((den * Nat.pow 2 q.toNat : Nat) : Rat) =
      (num : Rat) / den / (2 : Rat) ^ q := by
  have hd : (0 : Rat) < den := by exact_mod_cast hden
  have hp := two_zpow_pos q
  have hn : (0 : Rat) < (2 : Rat) ^ (-q).toNat := by positivity
  simp only [Nat.pow_eq]
  push_cast
  rw [pow_toNat two_ne_zero q]
  field_simp

section

variable {m : Nat} {q : Int} {num den : Nat}

theorem num_pos_of_near (hc : Canonical m q) (h : Near m q ((num : Rat) / den)) : 0 < num := by
  have hm : (1 : Rat) ≤ m := by exact_mod_cast hc.pos
  obtain ⟨hlow, -⟩ := h.bounds hc.pos
  by_contra hcon
  obtain rfl : num = 0 := by omega
  simp at hlow
  linarith

/-- A number in the interval of a measurement is below the next scale. -/
theorem floorLog2_lt_of_near (hc : Canonical m q) (hnum : 0 < num) (hden : 0 < den)
    (h : Near m q ((num : Rat) / den)) : floorLog2 num den < 53 + q := by
  have hp := two_zpow_pos q
  have hm := hc.add_one_le
  obtain ⟨hle, -⟩ := floorLog2_spec hnum hden
  rw [← two_zpow_lt_iff]
  calc (2 : Rat) ^ floorLog2 num den ≤ (num : Rat) / den := hle
    _ ≤ (m + 1 / 2) * (2 : Rat) ^ q := (div_le_iff₀ hp).mp (h.bounds hc.pos).2.1
    _ < (2 : Rat) ^ (53 : Int) * (2 : Rat) ^ q := mul_lt_mul_of_pos_right (by linarith) hp
    _ = (2 : Rat) ^ (53 + q) := (two_zpow_add 53 q).symm

theorem div_lt_leadingBit (hnum : 0 < num) (hden : 0 < den) (h : floorLog2 num den < 52 + q) :
    (num : Rat) / den / (2 : Rat) ^ q < leadingBit := by
  rw [leadingBit_eq, div_lt_iff₀ (two_zpow_pos q), ← two_zpow_add]
  exact (floorLog2_spec hnum hden).2.trans_le (zpow_le_zpow_right₀ (by norm_num) (by omega))

/-- Only the first number of a scale has numbers in its interval that are below that scale. They
are in the scale right below it. -/
theorem eq_leadingBit_of_near (hc : Canonical m q) (hnum : 0 < num) (hden : 0 < den)
    (h : Near m q ((num : Rat) / den)) (hq : -1074 < q) (hsmall : floorLog2 num den < 52 + q) :
    m = leadingBit ∧ floorLog2 num den = 51 + q := by
  have hp := two_zpow_pos q
  obtain ⟨hlow, -, -, hlead⟩ := h.bounds hc.pos
  obtain ⟨-, hlt⟩ := floorLog2_spec hnum hden
  have hvlt := div_lt_leadingBit hnum hden hsmall
  have hm : m = leadingBit := by
    have hge : leadingBit ≤ m := hc.leading.resolve_right (by omega)
    have hle : (m : Rat) < leadingBit + 1 := by linarith
    have : m < leadingBit + 1 := by exact_mod_cast hle
    omega
  -- A quarter of a unit below the scale's first number is still above half of that number.
  have hge : (2 : Rat) ^ (51 : Int) ≤ (num : Rat) / den / (2 : Rat) ^ q := by
    have hquarter := hlead hm hq
    rw [hm, leadingBit_eq] at hquarter
    norm_num at hquarter ⊢
    linarith
  have habove : 51 + q < floorLog2 num den + 1 := by
    rw [← two_zpow_lt_iff, two_zpow_add]
    exact ((le_div_iff₀ hp).mp hge).trans_lt hlt
  exact ⟨hm, by omega⟩

/-- In its own scale, a number in the interval of a measurement rounds to the coefficient. -/
theorem roundHalfEven_of_near (hc : Canonical m q) (hden : 0 < den)
    (h : Near m q ((num : Rat) / den)) :
    roundHalfEven (num * Nat.pow 2 (-q).toNat) (den * Nat.pow 2 q.toNat) = m := by
  obtain ⟨hlow, hhigh, hodd, -⟩ := h.bounds hc.pos
  rw [← scaled_div num hden] at hlow hhigh hodd
  exact roundHalfEven_eq_of_abs (Nat.mul_pos hden (Nat.pow_pos (by decide))) hlow hhigh hodd

/-- In the scale below, a number in the interval of a scale's first number rounds to the end. -/
theorem roundHalfEven_of_near_below (hc : Canonical leadingBit q) (hden : 0 < den)
    (h : Near leadingBit q ((num : Rat) / den)) (hq : -1074 < q)
    (hbelow : (num : Rat) / den / (2 : Rat) ^ q ≤ leadingBit) :
    roundHalfEven (num * Nat.pow 2 (-(q - 1)).toNat) (den * Nat.pow 2 (q - 1).toNat) =
      2 * leadingBit := by
  obtain ⟨-, -, -, hlow⟩ := h.bounds hc.pos
  have hlow := hlow rfl hq
  have hhalf : (num : Rat) / den / (2 : Rat) ^ (q - 1) =
      2 * ((num : Rat) / den / (2 : Rat) ^ q) := by
    rw [zpow_sub₀ (by norm_num)]
    field_simp
  refine roundHalfEven_eq_of_abs (Nat.mul_pos hden (Nat.pow_pos (by decide))) ?_ ?_ ?_
  · rw [scaled_div num hden, hhalf]
    push_cast
    linarith
  · rw [scaled_div num hden, hhalf]
    push_cast
    linarith
  · intro hodd
    omega

/-- **Rounding.** Every number in the interval of a measurement rounds to its bits. -/
theorem nearestBits_eq (hc : Canonical m q) (hden : 0 < den)
    (h : Near m q ((num : Rat) / den)) : nearestBits num den = bitsOf m q := by
  have hnum := num_pos_of_near hc h
  have hlog := floorLog2_lt_of_near hc hnum hden h
  have hbits := bitsOf_lt hc
  have hq := hc.low
  unfold nearestBits
  rw [if_neg (by omega)]
  simp only []
  by_cases hsame : max (floorLog2 num den - 52) (-1074) = q
  · rw [hsame, roundHalfEven_of_near hc hden h]
    exact Nat.min_eq_left hbits.le
  · -- The end of the scale below has the same bits as the first number of the scale.
    have hq' : -1074 < q := by omega
    have hsmall : floorLog2 num den < 52 + q := by omega
    obtain ⟨rfl, hlog'⟩ := eq_leadingBit_of_near hc hnum hden h hq' hsmall
    have hscale : max (floorLog2 num den - 52) (-1074) = q - 1 := by omega
    rw [hscale, roundHalfEven_of_near_below hc hden h hq' (div_lt_leadingBit hnum hden hsmall).le]
    have hsum : (q - 1 + 1074).toNat * leadingBit + 2 * leadingBit = bitsOf leadingBit q := by
      have : (q + 1074).toNat = (q - 1 + 1074).toNat + 1 := by omega
      rw [bitsOf, this]
      ring
    rw [hsum]
    exact Nat.min_eq_left hbits.le

end

end Binary64

end BenchRatio
