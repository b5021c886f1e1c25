import BenchRatio.Proofs.Decimal.Bits

/-!
# Exact sums and quotients

Sums, products and quotients of measurements are computed exactly and then rounded. Where the
exact result is a measurement itself, rounding changes nothing. So ones add up exactly as far as
every whole number is a measurement, which is up to `2 ^ 53`, and a finite number divided by itself
is one.

* `round_eq`: a number that is a measurement is not changed by rounding.
* `unpack_pack`: a measurement keeps its parts when it is packed into bits.
* `Represents`, `represents_add`, `represents_ofNat`: the number a measurement is, exact sums, and
  the measurements of whole numbers.
* `div_self_of_isFinite`, `isNaN_div_self`: what a measurement divided by itself is.
* `mean_ones`: **the mean of ones is one**, for up to `2 ^ 53` of them.
-/

namespace BenchRatio.Binary64

open Float.Model Float.Model.UnpackedFloat

/-! ## Rounding a number that is a measurement -/

section

variable {m : Nat} {q : Int} (hc : Canonical m q) {M : Nat} {e : Int}
  (hvalue : (M : Rat) * (2 : Rat) ^ e = m * (2 : Rat) ^ q)

include hc hvalue

theorem coefficient_pos : 0 < M := by
  have hm : (0 : Rat) < m := by exact_mod_cast hc.pos
  have hpos : (0 : Rat) < M * (2 : Rat) ^ e := hvalue ▸ mul_pos hm (two_zpow_pos q)
  exact_mod_cast pos_of_mul_pos_left hpos (two_zpow_pos e).le

/-- Equal numbers have their leading bits in the same place. -/
theorem log2_add_eq : (M.log2 : Int) + e = m.log2 + q := by
  have bounds : ∀ {n : Nat} {a : Int}, 0 < n →
      (2 : Rat) ^ ((n.log2 : Int) + a) ≤ n * (2 : Rat) ^ a ∧
        n * (2 : Rat) ^ a < (2 : Rat) ^ ((n.log2 : Int) + a + 1) := by
    intro n a hn
    obtain ⟨hlow, hhigh⟩ := log2_spec hn
    constructor
    · rw [two_zpow_add]
      exact mul_le_mul_of_nonneg_right hlow (two_zpow_pos a).le
    · rw [add_right_comm, two_zpow_add]
      exact mul_lt_mul_of_pos_right hhigh (two_zpow_pos a)
  obtain ⟨hlow, hhigh⟩ := bounds (a := e) (coefficient_pos hc hvalue)
  obtain ⟨hlow', hhigh'⟩ := bounds (a := q) hc.pos
  rw [hvalue] at hlow hhigh
  have h1 := two_zpow_lt_iff.mp (hlow.trans_lt hhigh')
  have h2 := two_zpow_lt_iff.mp (hlow'.trans_lt hhigh)
  omega

/-- The scale in which a measurement is rounded is its own. -/
theorem targetExponent_eq : Format.binary64.targetExponent (totalExponent M e) = q := by
  have hlog := log2_add_eq hc hvalue
  have htarget : ∀ t : Int, Format.binary64.targetExponent t = max (t - 53) (-1074) :=
    fun _ => rfl
  have hhigh : m.log2 ≤ 52 := by
    have : m.log2 < 53 := (Nat.log2_lt hc.pos.ne').mpr hc.lt
    omega
  have hlow := hc.low
  rw [htarget, totalExponent]
  rcases hc.leading with hlead | rfl
  · have : 52 ≤ m.log2 := (Nat.le_log2 hc.pos.ne').mpr hlead
    omega
  · omega

end

/-- Bits that are zero are dropped without a trace. -/
theorem shiftRight_mul_two_pow (m k : Nat) :
    ExtendedMantissa.ofMantissaAndAccuracy (m * 2 ^ k) .exact >>> k =
      ExtendedMantissa.ofMantissaAndAccuracy m .exact := by
  change k.repeat ExtendedMantissa.shiftRightOne _ = _
  induction k generalizing m with
  | zero => rw [pow_zero, mul_one]; rfl
  | succ k ih =>
    rw [Nat.repeat, pow_succ', ← mul_assoc, ih]
    simp [ExtendedMantissa.ofMantissaAndAccuracy, ExtendedMantissa.shiftRightOne]

section

variable {m : Nat} {q : Int} (hc : Canonical m q) {M : Nat} {e : Int}
  (hvalue : (M : Rat) * (2 : Rat) ^ e = m * (2 : Rat) ^ q)

include hc hvalue

theorem shiftToTargetExponent_eq (he : e ≤ q) :
    shiftToTargetExponent Format.binary64 M e .exact =
      (ExtendedMantissa.ofMantissaAndAccuracy m .exact, q) := by
  obtain ⟨k, rfl⟩ : ∃ k : Nat, q = e + k := ⟨(q - e).toNat, by omega⟩
  have hM : M = m * 2 ^ k := by
    rw [two_zpow_add, mul_left_comm, mul_comm, zpow_natCast] at hvalue
    exact_mod_cast mul_left_cancel₀ (two_zpow_pos e).ne' hvalue
  have hk : (e + k - e).toNat = k := by omega
  unfold shiftToTargetExponent shiftToExponent
  rw [targetExponent_eq hc hvalue]
  simp only [hk, hM, shiftRight_mul_two_pow]

theorem roundWithAccuracy_eq (s : Sign) (he : e ≤ q) :
    roundWithAccuracy Format.binary64 s M e .exact = .finite s m q hc.pos := by
  have hrounded : (ExtendedMantissa.ofMantissaAndAccuracy m .exact).roundedMantissa = m := rfl
  have hmantissa : (ExtendedMantissa.ofMantissaAndAccuracy m .exact).mantissa = m := rfl
  unfold roundWithAccuracy
  simp only [shiftToTargetExponent_eq hc hvalue he, hrounded,
    shiftToTargetExponent_eq hc rfl (Int.le_refl q), hmantissa]
  exact dif_neg hc.pos.ne'

/-- **A measurement is not changed by rounding.** -/
theorem round_eq (s : Sign) :
    UnpackedFloat.round Format.binary64 s M e = .finite s m q hc.pos := by
  unfold UnpackedFloat.round decreaseExponent
  simp only [targetExponent_eq hc hvalue, Nat.shiftLeft_eq]
  refine roundWithAccuracy_eq hc ?_ s (by omega)
  rw [← hvalue, zpow_sub₀ two_ne_zero, zpow_natCast]
  push_cast
  field_simp

end

/-! ## Packed and unpacked -/

section

variable (s : Sign) {b m : Nat}

theorem unpack_normal (hb : 0 < b) (hb' : b < 2047) (hm : leadingBit ≤ m)
    (hm' : m < 2 * leadingBit) (hpos : 0 < m) :
    unpack Format.binary64
        (packComponents Format.binary64 s (BitVec.ofNat _ b) (BitVec.ofNat _ m)) =
      .finite s m ((b : Int) - 1075) hpos := by
  have hexponent : (BitVec.ofNat 11 b).toNat = b := by
    rw [BitVec.toNat_ofNat, Nat.mod_eq_of_lt (by omega)]
  have hne : ∀ c : BitVec 11, c.toNat ≠ b → BitVec.ofNat 11 b ≠ c := fun c hc h =>
    hc (by rw [← h, hexponent])
  have hmax : BitVec.ofNat 11 b ≠ -1#11 := hne _ (Nat.ne_of_gt hb')
  have hmin : BitVec.ofNat 11 b ≠ 0#11 := hne _ (Nat.ne_of_lt hb)
  have hmantissa : (1#1 ++ BitVec.ofNat 52 m).toNat = m := by
    unfold leadingBit at hm hm'
    rw [BitVec.toNat_append, ← Nat.shiftLeft_add_eq_or_of_lt (BitVec.isLt _), BitVec.toNat_ofNat,
      BitVec.toNat_ofNat, Nat.shiftLeft_eq]
    omega
  unfold UnpackedFloat.unpack
  simp only [unpackMantissa_packComponents, unpackExponent_packComponents,
    unpackSign_packComponents, Sign.ofBitVec_toBitVec, hexponent, if_neg hmax, if_neg hmin,
    hmantissa]
  rfl

theorem unpack_subnormal (hpos : 0 < m) (hm : m < leadingBit) :
    unpack Format.binary64 (packComponents Format.binary64 s 0#11 (BitVec.ofNat _ m)) =
      .finite s m (-1074) hpos := by
  have hmantissa : (BitVec.ofNat 52 m).toNat = m := by
    rw [BitVec.toNat_ofNat]
    exact Nat.mod_eq_of_lt hm
  have hzero : BitVec.ofNat 52 m ≠ 0#52 := fun h => by
    rw [h] at hmantissa
    exact hpos.ne hmantissa
  have hmax : 0#11 ≠ -1#11 := by decide
  unfold UnpackedFloat.unpack
  simp only [unpackMantissa_packComponents, unpackExponent_packComponents,
    unpackSign_packComponents, Sign.ofBitVec_toBitVec, if_neg hmax, if_true, dif_neg hzero,
    hmantissa]
  rfl

end

/-- A finite measurement keeps its sign, its coefficient and its scale when it is packed. -/
theorem unpack_pack {m : Nat} {q : Int} (hc : Canonical m q) (s : Sign) :
    (Float.Model.pack (.finite s m q hc.pos)).unpack = .finite s m q hc.pos := by
  have hlow := hc.low
  have hhigh := hc.high
  obtain ⟨b, rfl⟩ : ∃ b : Nat, q = b - 1075 := ⟨(q + 1075).toNat, by omega⟩
  have hexponent :
      ((b : Int) - 1075 + Format.binary64.exponentBias + (52 : Nat)).toNat = b := by
    have : Format.binary64.exponentBias = 1023 := rfl
    omega
  have hpack : UnpackedFloat.pack Format.binary64 (.finite s m (b - 1075) hc.pos) =
      if m.log2 + 1 = 53 then
        packComponents Format.binary64 s (BitVec.ofNat _ b) (BitVec.ofNat _ m)
      else packComponents Format.binary64 s 0#11 (BitVec.ofNat _ m) := by
    unfold UnpackedFloat.pack
    simp only [hexponent]
    exact if_neg (by simp; omega)
  change UnpackedFloat.unpack Format.binary64 (UnpackedFloat.pack Format.binary64 _) = _
  rw [hpack]
  by_cases hlead : leadingBit ≤ m
  · have hlog : m.log2 = 52 := (Nat.log2_eq_iff hc.pos.ne').mpr ⟨hlead, hc.lt⟩
    rw [if_pos (by omega)]
    exact unpack_normal s (by omega) (by omega) hlead hc.lt hc.pos
  · have hlog : m.log2 < 52 := (Nat.log2_lt hc.pos.ne').mpr (Nat.lt_of_not_le hlead)
    obtain rfl : b = 1 := by
      have := hc.leading.resolve_left hlead
      omega
    rw [if_neg (by omega)]
    exact unpack_subnormal s hc.pos (Nat.lt_of_not_le hlead)

/-! ## Measurements as numbers -/

/-- The number is one of the positive finite measurements. -/
def Representable (v : Rat) : Prop := ∃ m q, Canonical m q ∧ (m : Rat) * (2 : Rat) ^ q = v

/-- The measurement is the positive number `v`. -/
def Represents (x : Float) (v : Rat) : Prop :=
  ∃ m q, ∃ hc : Canonical m q, x.toModel.unpack = .finite .positive m q hc.pos ∧
    (m : Rat) * (2 : Rat) ^ q = v

theorem canonical_unique {m m' : Nat} {q q' : Int} (hc : Canonical m q) (hc' : Canonical m' q')
    (h : (m : Rat) * (2 : Rat) ^ q = m' * (2 : Rat) ^ q') : m = m' ∧ q = q' := by
  obtain rfl : q = q' := (targetExponent_eq hc rfl).symm.trans (targetExponent_eq hc' h)
  exact ⟨by exact_mod_cast mul_right_cancel₀ (two_zpow_pos q).ne' h, rfl⟩

/-- A positive number that is a measurement is not changed. -/
theorem normalize_eq {m M : Nat} {q e : Int} (hc : Canonical m q)
    (hvalue : (M : Rat) * (2 : Rat) ^ e = m * (2 : Rat) ^ q) (s : Sign) :
    UnpackedFloat.normalize Format.binary64 M e s = .finite .positive m q hc.pos := by
  have hpos : compare (M : Int) 0 = .gt :=
    Int.compare_eq_gt.mpr (by exact_mod_cast coefficient_pos hc hvalue)
  unfold UnpackedFloat.normalize
  rw [hpos, Int.toNat_natCast, round_eq hc hvalue]

/-- A coefficient in a smaller scale. -/
theorem decreaseExponent_value (m : Nat) {e q : Int} (he : e ≤ q) :
    ((decreaseExponent m q e).1 : Rat) * (2 : Rat) ^ e = m * (2 : Rat) ^ q := by
  obtain ⟨k, rfl⟩ : ∃ k : Nat, q = e + k := ⟨(q - e).toNat, by omega⟩
  have hk : (e + k - e).toNat = k := by omega
  simp only [decreaseExponent, hk, Nat.shiftLeft_eq]
  rw [two_zpow_add, zpow_natCast]
  push_cast
  ring

/-- **A sum that is a measurement is exact.** -/
theorem represents_add {x y : Float} {v w : Rat} (hx : Represents x v) (hy : Represents y w)
    (hsum : Representable (v + w)) : Represents (x + y) (v + w) := by
  obtain ⟨m₁, q₁, hc₁, hx, rfl⟩ := hx
  obtain ⟨m₂, q₂, hc₂, hy, rfl⟩ := hy
  obtain ⟨m, q, hc, hvalue⟩ := hsum
  have hscaled : (((decreaseExponent m₁ q₁ (min q₁ q₂)).1 +
      (decreaseExponent m₂ q₂ (min q₁ q₂)).1 : Nat) : Rat) * (2 : Rat) ^ min q₁ q₂ =
        m * (2 : Rat) ^ q := by
    rw [hvalue, Nat.cast_add, add_mul, decreaseExponent_value m₁ (min_le_left _ _),
      decreaseExponent_value m₂ (min_le_right _ _)]
  refine ⟨m, q, hc, ?_, hvalue⟩
  change (Float.Model.pack
    (UnpackedFloat.add Format.binary64 x.toModel.unpack y.toModel.unpack)).unpack = _
  rw [hx, hy]
  have hadd := normalize_eq hc hscaled .positive
  rw [Nat.cast_add] at hadd
  simp only [UnpackedFloat.add, Sign.apply, hadd]
  exact unpack_pack hc .positive

/-- One times a measurement. -/
theorem represents_mul_one {x : Float} {v : Rat} (hx : Represents x v) :
    Represents (x * 1.0) v := by
  obtain ⟨m, q, hc, hx, rfl⟩ := hx
  refine ⟨m, q, hc, ?_, rfl⟩
  change (Float.Model.pack
    (UnpackedFloat.mul Format.binary64 x.toModel.unpack (1.0 : Float).toModel.unpack)).unpack = _
  have hone : (1.0 : Float).toModel.unpack = .finite .positive (2 ^ 52) (-52) (by decide) := rfl
  have hvalue : ((m * 2 ^ 52 : Nat) : Rat) * (2 : Rat) ^ (q + -52) = m * (2 : Rat) ^ q := by
    rw [two_zpow_add]
    push_cast
    have : (2 : Rat) ^ 52 * (2 : Rat) ^ (-52 : Int) = 1 := by norm_num
    linear_combination (m * (2 : Rat) ^ q) * this
  rw [hx, hone]
  simp only [UnpackedFloat.mul, roundWithAccuracy_eq hc hvalue _ (by omega : q + -52 ≤ q)]
  exact unpack_pack hc .positive

/-! ## Whole numbers -/

/-- The powers of two are measurements. -/
theorem canonical_leadingBit (q : Int) (hlow : -1074 ≤ q) (hhigh : q ≤ 971) :
    Canonical (2 ^ 52) q :=
  ⟨by decide, by decide, hlow, hhigh, .inl (by decide)⟩

/-- Whole numbers up to `2 ^ 53` are measurements. -/
theorem representable_natCast {n : Nat} (hpos : 0 < n) (hn : n ≤ 2 ^ 53) : Representable n := by
  rcases Nat.lt_or_eq_of_le hn with hlt | rfl
  · have hlow : 2 ^ n.log2 ≤ n := Nat.log2_self_le hpos.ne'
    have hhigh : n < 2 ^ (n.log2 + 1) := Nat.lt_log2_self
    have hlog : n.log2 < 53 := (Nat.log2_lt hpos.ne').mpr hlt
    obtain ⟨k, hk⟩ : ∃ k, n.log2 + k = 52 := ⟨52 - n.log2, by omega⟩
    have hlead : leadingBit = 2 ^ n.log2 * 2 ^ k := by rw [← pow_add, hk]; rfl
    refine ⟨n * 2 ^ k, -k,
      ⟨Nat.mul_pos hpos (Nat.two_pow_pos k), ?_, by omega, by omega, .inl ?_⟩, ?_⟩
    · rw [hlead, ← mul_assoc, ← pow_succ']
      exact Nat.mul_lt_mul_of_pos_right hhigh (Nat.two_pow_pos k)
    · rw [hlead]
      exact Nat.mul_le_mul_right _ hlow
    · rw [zpow_neg, zpow_natCast]
      push_cast
      field_simp
  · exact ⟨2 ^ 52, 1, canonical_leadingBit 1 (by decide) (by decide), by norm_num⟩

/-- A whole number up to `2 ^ 53` is kept as it is. -/
theorem represents_ofNat {n : Nat} (hpos : 0 < n) (hn : n ≤ 2 ^ 53) :
    Represents (Float.ofNat n) n := by
  rcases Nat.lt_or_eq_of_le hn with hlt | rfl
  · have hsmall : Float.ofNat n = n.toUInt64.toFloat * 1.0 := by
      change Float.ofScientific n false 0 = _
      unfold Float.ofScientific
      rw [dif_pos ⟨hlt, by decide⟩]
      rfl
    rw [hsmall]
    apply represents_mul_one
    obtain ⟨m, q, hc, hvalue⟩ := representable_natCast hpos hn
    have hword : n.toUInt64.toNat = n := Nat.mod_eq_of_lt (by omega)
    refine ⟨m, q, hc, ?_, hvalue⟩
    change (Float.Model.pack
      (UnpackedFloat.normalize Format.binary64 (n.toUInt64.toNat : Int) 0 .positive)).unpack = _
    rw [hword, normalize_eq hc (by rw [hvalue, zpow_zero, mul_one]), unpack_pack hc]
  · exact ⟨2 ^ 52, 1, canonical_leadingBit 1 (by decide) (by decide), rfl, by norm_num⟩

theorem represents_one : Represents 1.0 1 :=
  ⟨2 ^ 52, -52, canonical_leadingBit (-52) (by decide) (by decide), rfl, by norm_num⟩

/-- Ones are added up exactly: each step is a whole number. -/
theorem represents_sum_ones {n : Nat} (hn : n + 1 ≤ 2 ^ 53) :
    Represents ((List.replicate (n + 1) 1.0).foldl (· + ·) 0.0) (n + 1 : Nat) := by
  induction n with
  | zero =>
    have hfirst : (0.0 : Float) + 1.0 = 1.0 := by decide +kernel
    change Represents (0.0 + 1.0) _
    rw [hfirst, Nat.cast_one]
    exact represents_one
  | succ n ih =>
    rw [List.replicate_succ', List.foldl_concat, Nat.cast_succ]
    refine represents_add (ih (by omega)) represents_one ?_
    rw [← Nat.cast_succ]
    exact representable_natCast (Nat.succ_pos _) hn

/-! ## A measurement divided by itself -/

theorem divCore_self {m : Nat} (hm : 0 < m) (e : Int) :
    divCore Format.binary64 m e m e = (2 ^ 53, -53, .exact) := by
  have htarget : min (e - e)
      (Format.binary64.targetExponent (totalExponent m e - totalExponent m e)) = -53 := by
    rw [Int.sub_self, Int.sub_self]
    rfl
  have hshift : (e - e - -53).toNat = 53 := by omega
  unfold divCore
  simp only [htarget, hshift]
  rw [Nat.shiftLeft_eq, Nat.mul_div_cancel_left _ hm, Nat.mul_mod_right]
  rfl

/-- A finite number that is not zero is contained in itself once. -/
theorem div_eq_one {x y : Float} {s : Sign} {m : Nat} {e : Int} {hm : 0 < m}
    (hx : x.toModel.unpack = .finite s m e hm) (hy : y.toModel.unpack = .finite s m e hm) :
    x / y = 1.0 := by
  change Float.ofModel (.pack
    (UnpackedFloat.div Format.binary64 x.toModel.unpack y.toModel.unpack)) = _
  rw [hx, hy]
  simp only [UnpackedFloat.div, divCore_self hm]
  cases s <;> rfl

/-- Two measurements of one number have the quotient one. -/
theorem Represents.div_eq_one {x y : Float} {v : Rat} (hx : Represents x v)
    (hy : Represents y v) : x / y = 1.0 := by
  obtain ⟨m, q, hc, hx, rfl⟩ := hx
  obtain ⟨m', q', hc', hy, heq⟩ := hy
  obtain ⟨rfl, rfl⟩ := canonical_unique hc' hc heq
  exact Binary64.div_eq_one hx hy

/-- **The mean of ones is one**, as long as they can be counted. -/
theorem mean_ones {n : Nat} (hpos : 0 < n) (hn : n ≤ 2 ^ 53) :
    (List.replicate n (1.0 : Float)).foldl (· + ·) 0.0 / Float.ofNat n = 1.0 := by
  obtain ⟨k, rfl⟩ : ∃ k, n = k + 1 := ⟨n - 1, by omega⟩
  exact (represents_sum_ones hn).div_eq_one (represents_ofNat hpos hn)

/-- A finite number that is not zero is once in itself. -/
theorem div_self_of_isFinite {x : Float} (h : x.isFinite) (hne : x ≠ 0.0 ∧ x ≠ -0.0) :
    x / x = 1.0 := by
  change x.toModel.unpack.isFinite = true at h
  cases hx : x.toModel.unpack with
  | infinity s => rw [hx] at h; cases h
  | notANumber => rw [hx] at h; cases h
  | zero s =>
    have hzero := (beq_zero_iff x).mp ((beq_zero_iff_unpack x).mpr ⟨s, hx⟩)
    exact (hzero.elim hne.1 hne.2).elim
  | finite s m e hm => exact div_eq_one hx hx

theorem isFinite_eq_false_iff {x : Float} : x.isFinite = false ↔ x.isInf ∨ x.isNaN := by
  change x.toModel.unpack.isFinite = false ↔
    x.toModel.unpack.isInf = true ∨ x.toModel.unpack.isNaN = true
  cases x.toModel.unpack <;>
    simp [UnpackedFloat.isFinite, UnpackedFloat.isInf, UnpackedFloat.isNaN]

/-- What is not finite divided by itself is no number. -/
theorem isNaN_div_self {x : Float} (h : x.isFinite = false) : (x / x).isNaN := by
  change x.toModel.unpack.isFinite = false at h
  change (Float.ofModel (.pack
    (UnpackedFloat.div Format.binary64 x.toModel.unpack x.toModel.unpack))).isNaN = true
  cases hx : x.toModel.unpack with
  | infinity s => cases s <;> rfl
  | notANumber => rfl
  | zero s => rw [hx] at h; cases h
  | finite s m e hm => rw [hx] at h; cases h

end BenchRatio.Binary64
