import BenchRatio.Proofs.Decimal.Rounding
import Mathlib

/-!
# The bits of a measurement

A measurement is determined by its bits, and there is a single one that is not a number. So every
measurement is that one or its sign and the bits of its size.

* `toBits_ofBits`: a number keeps its bits.
* `ofFields_isNegative`: a measurement is its sign and its two fields.
* `eq_of_notANumber`: there is one measurement that is not a number.
* `magnitude_cases`: **a measurement is determined by its sign and its magnitude**.
* `beq_zero_iff`: a measurement is zero as a number if it is one of the two zeros.
* `isFinite_eq`: a measurement is finite if its exponent is not the largest one.
-/

namespace BenchRatio.Binary64

open Float.Model Float.Model.UnpackedFloat

/-- A number keeps its bits. -/
theorem toBits_ofBits {bits : UInt64} (h : (Float.ofBits bits).isNaN = false) :
    (Float.ofBits bits).toBits = bits := by
  have hpack := @pack_unpack .binary64 bits.toBitVec (by decide)
  change (Float.ofBits bits).toBits.toBitVec = _ at hpack
  split at hpack
  · have hnan : Float.ofBits bits = Float.nan :=
      Float.toBits_inj.mp (UInt64.toBitVec_inj.mp hpack)
    rw [hnan] at h
    cases h
  · exact UInt64.toBitVec_inj.mp hpack

theorem toNat_unpackExponent (b : BitVec 64) :
    (@unpackExponent Format.binary64 b).toNat = b.toNat / leadingBit % 2048 := by
  rw [unpackExponent_def, BitVec.extractLsb'_toNat, Nat.shiftRight_eq_div_pow]
  rfl

theorem toNat_unpackMantissa (b : BitVec 64) :
    (@unpackMantissa Format.binary64 b).toNat = b.toNat % leadingBit := by
  rw [unpackMantissa_def, BitVec.extractLsb'_toNat]
  rfl

/-- A measurement is its sign and its two fields. -/
theorem ofFields_isNegative (x : Float) :
    ofFields (isNegative x) (exponentField x * leadingBit + fractionField x) = x := by
  have hlt : x.toBits.toNat < 2 ^ 64 := x.toBits.toNat_lt
  have hsum : (if isNegative x then signBit + (exponentField x * leadingBit + fractionField x)
      else exponentField x * leadingBit + fractionField x) = x.toBits.toNat := by
    unfold isNegative exponentField fractionField signBit leadingBit
    split
    · next h =>
      have := of_decide_eq_true h
      omega
    · next h =>
      have := of_decide_eq_false (Bool.eq_false_iff.mpr h)
      omega
  rw [ofFields, hsum, UInt64.ofNat_toNat, Float.ofBits_toBits]

/-- The measurements that are not numbers have the same bits. -/
theorem eq_of_notANumber {x y : Float} (hx : magnitude x = .notANumber)
    (hy : magnitude y = .notANumber) : x = y := by
  have canonical : ∀ z : Float, magnitude z = .notANumber →
      z.toBits.toBitVec = packedNaN Format.binary64 := by
    intro z hz
    unfold magnitude at hz
    split at hz
    · next he =>
      split at hz
      · cases hz
      · next hm =>
        refine z.toModel.valid.eq_packedNaN (BitVec.eq_of_toNat_eq ?_) (fun h => hm ?_)
        · exact (toNat_unpackExponent _).trans he
        · exact (toNat_unpackMantissa _).symm.trans (congrArg BitVec.toNat h)
    · split at hz <;> cases hz
  rw [← Float.toBits_inj, ← UInt64.toBitVec_inj, canonical x hx, canonical y hy]

/-- **Bits.** A measurement is the one that is not a number, or it has its sign and, below it, the
bits of its size: of infinity, of zero, or of a canonical pair. -/
theorem magnitude_cases (x : Float) :
    (magnitude x = .notANumber ∧ x = 0.0 / 0.0) ∨
      (magnitude x = .infinite ∧ x = ofFields (isNegative x) infinityBits) ∨
      (magnitude x = .finite 0 (-1074) ∧ x = ofFields (isNegative x) 0) ∨
      ∃ m q, magnitude x = .finite m q ∧ Canonical m q ∧
        x = ofFields (isNegative x) (bitsOf m q) := by
  have hx := (ofFields_isNegative x).symm
  have hfrac : fractionField x < leadingBit := Nat.mod_lt _ (by decide)
  have hexp : exponentField x < 2048 := Nat.mod_lt _ (by decide)
  by_cases he : exponentField x = 2047
  · by_cases hm : fractionField x = 0
    · exact .inr (.inl ⟨by rw [magnitude, if_pos he, if_pos hm], by rwa [he, hm] at hx⟩)
    · have hnan : magnitude x = .notANumber := by rw [magnitude, if_pos he, if_neg hm]
      exact .inl ⟨hnan, eq_of_notANumber hnan (by decide +kernel)⟩
  · refine .inr (.inr ?_)
    by_cases he0 : exponentField x = 0
    · have hmag : magnitude x = .finite (fractionField x) (-1074) := by
        rw [magnitude, if_neg he, if_pos he0]
      rw [he0, Nat.zero_mul, Nat.zero_add] at hx
      by_cases hm : fractionField x = 0
      · exact .inl ⟨by rw [hmag, hm], by rwa [hm] at hx⟩
      · refine .inr ⟨_, _, hmag, ⟨by omega, by omega, by omega, by omega, .inr rfl⟩, ?_⟩
        simpa [bitsOf] using hx
    · have hmag : magnitude x =
          .finite (leadingBit + fractionField x) ((exponentField x : Int) - 1075) := by
        rw [magnitude, if_neg he, if_neg he0]
      have hlead : 0 < leadingBit := by decide
      refine .inr ⟨_, _, hmag, ⟨by omega, by omega, by omega, by omega, .inl (by omega)⟩, ?_⟩
      have hbits : bitsOf (leadingBit + fractionField x) ((exponentField x : Int) - 1075) =
          exponentField x * leadingBit + fractionField x := by
        obtain ⟨e, he⟩ : ∃ e, exponentField x = e + 1 := ⟨exponentField x - 1, by omega⟩
        unfold bitsOf
        rw [he, show (((e + 1 : Nat) : Int) - 1075 + 1074).toNat = e by omega]
        ring
      rwa [hbits]

/-! ## The two zeros -/

theorem beq_zero_iff_unpack (x : Float) :
    (x == 0.0) = true ↔ ∃ s, x.toModel.unpack = .zero s := by
  have hzero : (0.0 : Float).toModel.unpack = .zero .positive := by rfl
  have hbeq : (x == 0.0) = UnpackedFloat.beq x.toModel.unpack (.zero .positive) := by
    rw [← hzero]
    rfl
  rw [hbeq]
  cases x.toModel.unpack with
  | infinity s => cases s <;> simp [UnpackedFloat.beq, UnpackedFloat.compare]
  | notANumber => simp [UnpackedFloat.beq, UnpackedFloat.compare]
  | zero s => simp [UnpackedFloat.beq, UnpackedFloat.compare]
  | finite s => cases s <;> simp [UnpackedFloat.beq, UnpackedFloat.compare]

theorem fields_of_unpack_eq_zero {x : Float} {s : Sign} (h : x.toModel.unpack = .zero s) :
    exponentField x = 0 ∧ fractionField x = 0 := by
  unfold Float.Model.unpack UnpackedFloat.unpack at h
  simp only [] at h
  split at h
  · split at h <;> cases h
  · split at h
    · next he =>
      split at h
      · next hm =>
        exact ⟨(toNat_unpackExponent _).symm.trans (congrArg BitVec.toNat he),
          (toNat_unpackMantissa _).symm.trans (congrArg BitVec.toNat hm)⟩
      · cases h
    · cases h

/-- **Zero.** Exactly the two zeros equal zero as numbers. -/
theorem beq_zero_iff (x : Float) : (x == 0.0) = true ↔ x = 0.0 ∨ x = -0.0 := by
  constructor
  · intro h
    obtain ⟨s, hs⟩ := (beq_zero_iff_unpack x).mp h
    obtain ⟨he, hm⟩ := fields_of_unpack_eq_zero hs
    have hx := ofFields_isNegative x
    rw [he, hm] at hx
    cases hneg : isNegative x with
    | false =>
      rw [hneg] at hx
      exact .inl (hx.symm.trans (by decide +kernel))
    | true =>
      rw [hneg] at hx
      exact .inr (hx.symm.trans (by decide +kernel))
  · rintro (rfl | rfl) <;> decide +kernel

/-! ## Finite measurements -/

/-- A measurement is finite exactly if its exponent is not the largest one. -/
theorem isFinite_eq (x : Float) : isFinite x = x.isFinite := by
  have hfield : (@unpackExponent Format.binary64 x.toModel.toBits.toBitVec).toNat =
      exponentField x := toNat_unpackExponent _
  have hmax : (@unpackExponent Format.binary64 x.toModel.toBits.toBitVec = -1#11) ↔
      exponentField x = 2047 :=
    ⟨fun h => hfield.symm.trans (congrArg BitVec.toNat h),
      fun h => BitVec.eq_of_toNat_eq (hfield.trans h)⟩
  change decide (exponentField x ≠ 2047) = x.toModel.unpack.isFinite
  unfold Float.Model.unpack UnpackedFloat.unpack
  simp only []
  split
  · next h =>
    rw [decide_eq_false (not_not.mpr (hmax.mp h))]
    split <;> rfl
  · next h =>
    rw [decide_eq_true (mt hmax.mpr h)]
    split
    · split <;> rfl
    · rfl

end BenchRatio.Binary64
