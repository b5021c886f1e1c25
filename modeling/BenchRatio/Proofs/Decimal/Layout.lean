import BenchRatio.Decimal.Layout
import BenchRatio.Proofs.Decimal.Bits
import BenchRatio.Proofs.Decimal.Shortest
import BenchRatio.Text.Blank

/-!
# Measurements read back

What a layout writes is a numeral. Its digits may be filled up with zeros, which changes the decimal
but not its value, so reading it gives the measurement that was written.

* `decimal?_pointed`, `decimal?_whole`: how digits are read, with a point and without one.
* `decimal?_renderDecimal`: a layout's text for a decimal is read as that decimal, up to zeros.
* `readList_renderList`: **what is written in a layout reads back**.
-/

namespace BenchRatio

/-! ## Digits -/

namespace Digits

/-- Digits are read as the library reads them. -/
theorem number_eq_ofDigitChars {ds : List Char} (hds : ∀ c ∈ ds, c.isDigit) :
    number 10 ds = Nat.ofDigitChars 10 ds 0 := by
  rw [number_eq_foldl, Nat.ofDigitChars_eq_foldl]
  generalize 0 = n
  induction ds generalizing n with
  | nil => rfl
  | cons c ds ih =>
    rw [List.foldl_cons, List.foldl_cons, ih fun c hc => hds c (List.mem_cons_of_mem _ hc)]
    rw [value, if_pos (hds c List.mem_cons_self), Nat.add_comm]

theorem isDigit_toDigits (n : Nat) : ∀ c ∈ Nat.toDigits 10 n, c.isDigit :=
  fun _ hc => Nat.isDigit_of_mem_toDigits (by decide) (by decide) hc

theorem isDigit_replicate (n : Nat) : ∀ c ∈ List.replicate n '0', c.isDigit := by
  intro c hc
  rw [List.eq_of_mem_replicate hc]
  rfl

theorem number_toDigits (n : Nat) : number 10 (Nat.toDigits 10 n) = n := by
  rw [number_eq_ofDigitChars (isDigit_toDigits n), Nat.ofDigitChars_ten_toDigits]

end Digits

/-! ## Numerals -/

namespace Numeral

open Digits

theorem le_ofDigitChars (ds : List Char) (n : Nat) : n ≤ Nat.ofDigitChars 10 ds n := by
  rw [Nat.ofDigitChars_eq_ofDigitChars_zero]
  exact (Nat.le_mul_of_pos_left n (Nat.pow_pos (by decide))).trans (Nat.le_add_right _ _)

/-- A small exponent is read with all of its digits. -/
theorem exponentValue_toDigits {n : Nat} (hn : n < 65536) :
    exponentValue (Nat.toDigits 10 n) = n := by
  have go : ∀ (ds : List Char) (k : Nat), (∀ c ∈ ds, c.isDigit) →
      Nat.ofDigitChars 10 ds k < 65536 →
      ds.foldl (fun n d => if n < 65536 then 10 * n + Digits.value d else n) k =
        Nat.ofDigitChars 10 ds k := by
    intro ds
    induction ds with
    | nil => intro k _ _; rfl
    | cons c ds ih =>
      intro k hds hlt
      rw [Nat.ofDigitChars_cons] at hlt ⊢
      have hk : k < 65536 := by
        have := le_ofDigitChars ds (10 * k + (c.toNat - '0'.toNat))
        omega
      rw [List.foldl_cons, if_pos hk, Digits.value, if_pos (hds c List.mem_cons_self)]
      exact ih _ (fun c hc => hds c (List.mem_cons_of_mem _ hc)) hlt
  have h := go (Nat.toDigits 10 n) 0 (isDigit_toDigits n)
  rw [Nat.ofDigitChars_ten_toDigits] at h
  exact h hn

theorem sign_of_isDigit {c : Char} (hc : c.isDigit) (cs : List Char) :
    sign (c :: cs) = (false, c :: cs) := by
  unfold sign
  split
  · next h => cases h; exact absurd hc (by decide)
  · next h => cases h; exact absurd hc (by decide)
  · rfl

theorem exponent?_toDigits {plus : List Char} (hplus : plus = [] ∨ plus = ['+']) {e : Int}
    (he : e.natAbs < 65536) :
    exponent? ('e' :: ((if e < 0 then ['-'] else plus) ++ Nat.toDigits 10 e.natAbs)) = some e := by
  have hdigits := isDigit_toDigits e.natAbs
  have hne : Nat.toDigits 10 e.natAbs ≠ [] := Nat.toDigits_ne_nil
  have hall : Nat.toDigits 10 e.natAbs ≠ [] ∧ (Nat.toDigits 10 e.natAbs).all Char.isDigit :=
    ⟨hne, List.all_eq_true.mpr hdigits⟩
  have hsign : sign ((if e < 0 then ['-'] else plus) ++ Nat.toDigits 10 e.natAbs) =
      (decide (e < 0), Nat.toDigits 10 e.natAbs) := by
    split
    · next h => simp [sign, h]
    · next h =>
      rcases hplus with rfl | rfl
      · obtain ⟨c, cs, hcs⟩ := List.exists_cons_of_ne_nil hne
        rw [List.nil_append, hcs, sign_of_isDigit (hdigits c (by simp [hcs])), decide_eq_false h]
      · simp [sign, h]
  rw [exponent?, if_pos (.inl rfl), hsign]
  simp only []
  rw [if_pos hall, exponentValue_toDigits he]
  split
  · next h =>
    have := of_decide_eq_true h
    congr 1
    omega
  · next h =>
    have := of_decide_eq_false (Bool.eq_false_iff.mpr h)
    congr 1
    omega

/-- What may stand after the digits of a numeral: nothing, or an exponent. -/
def EndsDigits (rest : List Char) : Prop := rest = [] ∨ ∃ cs, rest = 'e' :: cs

theorem EndsDigits.takeWhile {rest : List Char} (h : EndsDigits rest) :
    rest.takeWhile Char.isDigit = [] := by
  rcases h with rfl | ⟨cs, rfl⟩
  · rfl
  · exact List.takeWhile_cons_of_neg (by decide)

theorem EndsDigits.dropWhile {rest : List Char} (h : EndsDigits rest) :
    rest.dropWhile Char.isDigit = rest := by
  rcases h with rfl | ⟨cs, rfl⟩
  · rfl
  · exact List.dropWhile_cons_of_neg (by decide)

/-- Digits without a point are a whole coefficient. -/
theorem decimal?_whole {whole rest : List Char} (hne : whole ≠ [])
    (hwhole : ∀ c ∈ whole, c.isDigit) (hrest : EndsDigits rest) :
    decimal? (whole ++ rest) = (exponent? rest).map fun e => ⟨number 10 whole, e⟩ := by
  have htake : (whole ++ rest).takeWhile Char.isDigit = whole := by
    rw [List.takeWhile_append_of_pos hwhole, hrest.takeWhile, List.append_nil]
  have hdrop : (whole ++ rest).dropWhile Char.isDigit = rest := by
    rw [List.dropWhile_append_of_pos hwhole, hrest.dropWhile]
  unfold decimal?
  simp only [htake, hdrop]
  rcases hrest with rfl | ⟨cs, rfl⟩ <;> simp [hne]

/-- Digits around a point are one coefficient, and each digit after the point is a power of ten. -/
theorem decimal?_pointed {whole part rest : List Char} (hne : whole ≠ [])
    (hwhole : ∀ c ∈ whole, c.isDigit) (hpart : ∀ c ∈ part, c.isDigit) (hrest : EndsDigits rest) :
    decimal? (whole ++ '.' :: (part ++ rest)) =
      (exponent? rest).map fun e => ⟨number 10 (whole ++ part), e - part.length⟩ := by
  have htake : (whole ++ '.' :: (part ++ rest)).takeWhile Char.isDigit = whole := by
    rw [List.takeWhile_append_of_pos hwhole, List.takeWhile_cons_of_neg (by decide),
      List.append_nil]
  have hdrop : (whole ++ '.' :: (part ++ rest)).dropWhile Char.isDigit = '.' :: (part ++ rest) := by
    rw [List.dropWhile_append_of_pos hwhole, List.dropWhile_cons_of_neg (by decide)]
  have htake' : (part ++ rest).takeWhile Char.isDigit = part := by
    rw [List.takeWhile_append_of_pos hpart, hrest.takeWhile, List.append_nil]
  have hdrop' : (part ++ rest).dropWhile Char.isDigit = rest := by
    rw [List.dropWhile_append_of_pos hpart, hrest.dropWhile]
  unfold decimal?
  simp only [htake, hdrop, htake', hdrop']
  simp [hne]

/-- A numeral that starts with a digit is no word. -/
theorem word?_of_isDigit {c : Char} (hc : c.isDigit) (cs : List Char) : word? (c :: cs) = none := by
  have hlower : c.toLower = c := by
    have hnine : c.val ≤ '9'.val := by
      simp only [Char.isDigit, Bool.and_eq_true, decide_eq_true_eq] at hc
      exact hc.2
    exact dif_neg fun hupper => absurd (UInt32.le_trans hupper.1 hnine) (by decide)
  have hne : ∀ (d : Char) (s : String), s.toList.head? = some d → d.isDigit = false →
      String.ofList ((c :: cs).map Char.toLower) ≠ s := by
    rintro d s hs hd rfl
    rw [String.toList_ofList, List.map_cons, List.head?_cons, hlower] at hs
    obtain rfl := Option.some.inj hs
    rw [hc] at hd
    cases hd
  unfold word?
  split
  · next h => exact absurd h (hne 'i' _ rfl rfl)
  · next h => exact absurd h (hne 'i' _ rfl rfl)
  · next h => exact absurd h (hne 'n' _ rfl rfl)
  · rfl

end Numeral

/-! ## Decimals in a layout -/

namespace Decimal

open Digits Numeral

/-- A decimal whose digits are filled up with zeros has the same value. -/
theorem value_filled (d : Decimal) (k : Nat) :
    value ⟨d.coefficient * 10 ^ k, d.exponent - k⟩ = d.value := by
  have h10 : (10 : Rat) ^ (k : Int) ≠ 0 := zpow_ne_zero _ (by norm_num)
  unfold value
  rw [zpow_sub₀ (by norm_num)]
  push_cast
  rw [← zpow_natCast]
  field_simp

theorem number_append_zeros {ds : List Char} (hds : ∀ c ∈ ds, c.isDigit) (k : Nat) :
    number 10 (ds ++ List.replicate k '0') = number 10 ds * 10 ^ k := by
  have hall : ∀ c ∈ ds ++ List.replicate k '0', c.isDigit :=
    List.forall_mem_append.mpr ⟨hds, isDigit_replicate k⟩
  rw [number_eq_ofDigitChars hall, number_eq_ofDigitChars hds, Nat.ofDigitChars_append,
    Nat.ofDigitChars_replicate_zero, Nat.mul_comm]

theorem number_zeros_append {ds : List Char} (hds : ∀ c ∈ ds, c.isDigit) (k : Nat) :
    number 10 (List.replicate k '0' ++ ds) = number 10 ds := by
  have hall : ∀ c ∈ List.replicate k '0' ++ ds, c.isDigit :=
    List.forall_mem_append.mpr ⟨isDigit_replicate k, hds⟩
  rw [number_eq_ofDigitChars hall, number_eq_ofDigitChars hds, Nat.ofDigitChars_append,
    Nat.ofDigitChars_replicate_zero, Nat.mul_zero]

section

variable (wholePoint : Bool) {ds : List Char} (hds : ∀ c ∈ ds, c.isDigit) (hne : ds ≠ []) {e : Int}

include hds

/-- Zeros stand between the point and the digits. -/
theorem decimal?_positional_below (hlow : e + ds.length ≤ 0) :
    decimal? (positional wholePoint ds (e + ds.length)) = some ⟨number 10 ds, e⟩ := by
  obtain ⟨z, hz⟩ : ∃ z : Nat, e + ds.length = -z := ⟨(-(e + ds.length)).toNat, by omega⟩
  have hpart : ∀ c ∈ List.replicate z '0' ++ ds, c.isDigit :=
    List.forall_mem_append.mpr ⟨isDigit_replicate z, hds⟩
  have h := decimal?_pointed (List.cons_ne_nil '0' []) (isDigit_replicate 1) hpart (.inl rfl)
  have hnumber : number 10 (['0'] ++ (List.replicate z '0' ++ ds)) = number 10 ds := by
    rw [← List.append_assoc, ← number_zeros_append hds (z + 1)]
    rfl
  rw [List.append_nil, hnumber] at h
  rw [positional, if_pos hlow, hz, neg_neg, Int.toNat_natCast]
  refine h.trans (congrArg (fun f => some (Decimal.mk (number 10 ds) f)) ?_)
  rw [List.length_append, List.length_replicate]
  omega

include hne

/-- Zeros stand before the point, and one more behind it if there is a point. -/
theorem decimal?_positional_above (hpos : 0 < e + ds.length) (hhigh : 0 ≤ e) :
    ∃ k : Nat, decimal? (positional wholePoint ds (e + ds.length)) =
      some ⟨number 10 ds * 10 ^ k, e - k⟩ := by
  obtain ⟨z, rfl⟩ : ∃ z : Nat, e = z := ⟨e.toNat, by omega⟩
  have hfill : ((z : Int) + ds.length).toNat - ds.length = z := by omega
  have hwhole : ∀ c ∈ ds ++ List.replicate z '0', c.isDigit :=
    List.forall_mem_append.mpr ⟨hds, isDigit_replicate z⟩
  have hwne : ds ++ List.replicate z '0' ≠ [] := by simp [hne]
  rw [positional, if_neg (by omega), if_pos (by omega), hfill]
  cases wholePoint with
  | false =>
    refine ⟨z, ?_⟩
    have h := decimal?_whole hwne hwhole (.inl rfl)
    rw [number_append_zeros hds] at h
    refine h.trans (congrArg (fun f => some (Decimal.mk _ f)) ?_)
    omega
  | true =>
    refine ⟨z + 1, ?_⟩
    have h := decimal?_pointed hwne hwhole (isDigit_replicate 1) (.inl rfl)
    have hnumber : number 10 (ds ++ List.replicate z '0' ++ List.replicate 1 '0') =
        number 10 ds * 10 ^ (z + 1) := by
      rw [← number_append_zeros hds (z + 1), List.append_assoc, List.replicate_append_replicate]
    rw [hnumber] at h
    refine h.trans (congrArg (fun f => some (Decimal.mk _ f)) ?_)
    simp

/-- The point stands among the digits. -/
theorem decimal?_positional_among (hpos : 0 < e + ds.length) (hhigh : e < 0) :
    decimal? (positional wholePoint ds (e + ds.length)) = some ⟨number 10 ds, e⟩ := by
  obtain ⟨p, hp⟩ : ∃ p : Nat, e + ds.length = p := ⟨(e + ds.length).toNat, by omega⟩
  have hwne : ds.take p ≠ [] := by
    rw [Ne, List.take_eq_nil_iff]
    rintro (h | h)
    · omega
    · exact hne h
  have hwhole : ∀ c ∈ ds.take p, c.isDigit := fun c hc => hds c (List.mem_of_mem_take hc)
  have hpart : ∀ c ∈ ds.drop p, c.isDigit := fun c hc => hds c (List.mem_of_mem_drop hc)
  have h := decimal?_pointed hwne hwhole hpart (.inl rfl)
  rw [List.append_nil, List.take_append_drop] at h
  rw [positional, if_neg (by omega), if_neg (by omega), hp, Int.toNat_natCast]
  refine h.trans (congrArg (fun f => some (Decimal.mk _ f)) ?_)
  rw [List.length_drop]
  omega

/-- A number without an exponent. Zeros behind its digits are read with them. -/
theorem decimal?_positional (e : Int) :
    ∃ k : Nat, decimal? (positional wholePoint ds (e + ds.length)) =
      some ⟨number 10 ds * 10 ^ k, e - k⟩ := by
  have unfilled : decimal? (positional wholePoint ds (e + ds.length)) = some ⟨number 10 ds, e⟩ →
      ∃ k : Nat, decimal? (positional wholePoint ds (e + ds.length)) =
        some ⟨number 10 ds * 10 ^ k, e - k⟩ := fun h => ⟨0, by simpa using h⟩
  by_cases hlow : e + ds.length ≤ 0
  · exact unfilled (decimal?_positional_below wholePoint hds hlow)
  · by_cases hhigh : 0 ≤ e
    · exact decimal?_positional_above wholePoint hds hne (by omega) hhigh
    · exact unfilled (decimal?_positional_among wholePoint hds hne (by omega) (by omega))

end

/-- A number with an exponent. -/
theorem decimal?_scientific {plus : List Char} (hplus : plus = [] ∨ plus = ['+'])
    {ds : List Char} (hds : ∀ c ∈ ds, c.isDigit) (hne : ds ≠ []) {e : Int}
    (he : (e + ds.length - 1).natAbs < 65536) :
    decimal? (scientific plus ds (e + ds.length - 1)) = some ⟨number 10 ds, e⟩ := by
  have hexponent := exponent?_toDigits hplus he
  unfold scientific
  simp only []
  generalize hrest : 'e' :: ((if e + ds.length - 1 < 0 then ['-'] else plus) ++
    Nat.toDigits 10 (e + ds.length - 1).natAbs) = rest at *
  have hends : EndsDigits rest := .inr ⟨_, hrest.symm⟩
  match ds with
  | [] => exact absurd rfl hne
  | [d] =>
    rw [decimal?_whole hne hds hends, hexponent]
    simp
  | d :: d' :: ds =>
    have hwhole : ∀ c ∈ [d], c.isDigit := fun c hc =>
      hds c (by rw [List.mem_singleton.mp hc]; exact List.mem_cons_self)
    have hpart : ∀ c ∈ d' :: ds, c.isDigit := fun c hc => hds c (List.mem_cons_of_mem _ hc)
    have h := decimal?_pointed (List.cons_ne_nil d []) hwhole hpart hends
    rw [hexponent] at h
    refine h.trans (congrArg (fun f => some (Decimal.mk _ f)) ?_)
    simp only [List.length_cons]
    omega

/-- The number of a decimal's digits places it between two powers of ten. -/
theorem value_bounds {d : Decimal} (hpos : 0 < d.coefficient) :
    (10 : Rat) ^ (d.exponent + (Nat.toDigits 10 d.coefficient).length - 1) ≤ d.value ∧
      d.value < (10 : Rat) ^ (d.exponent + (Nat.toDigits 10 d.coefficient).length) := by
  have h10 : (0 : Rat) < (10 : Rat) ^ d.exponent := zpow_pos (by norm_num) _
  obtain ⟨k, hk⟩ : ∃ k, (Nat.toDigits 10 d.coefficient).length = k + 1 :=
    Nat.exists_eq_succ_of_ne_zero Nat.length_toDigits_pos.ne'
  have hlt : d.coefficient < 10 ^ (k + 1) :=
    (Nat.length_toDigits_le_iff (by decide) (Nat.succ_pos k)).mp hk.le
  have hle : 10 ^ k ≤ d.coefficient := by
    by_cases hk0 : k = 0
    · subst hk0
      exact hpos
    · by_contra hcon
      have := (Nat.length_toDigits_le_iff (by decide) (Nat.pos_of_ne_zero hk0)).mpr
        (Nat.lt_of_not_le hcon)
      omega
  have hlt' : (d.coefficient : Rat) < (10 : Rat) ^ ((k + 1 : Nat) : Int) := by
    rw [zpow_natCast]
    exact_mod_cast hlt
  have hle' : (10 : Rat) ^ (k : Int) ≤ (d.coefficient : Rat) := by
    rw [zpow_natCast]
    exact_mod_cast hle
  rw [hk]
  constructor
  · rw [show d.exponent + ((k + 1 : Nat) : Int) - 1 = k + d.exponent by push_cast; ring,
      zpow_add₀ (by norm_num)]
    exact mul_le_mul_of_nonneg_right hle' h10.le
  · rw [add_comm, zpow_add₀ (by norm_num)]
    exact mul_lt_mul_of_pos_right hlt' h10

/-- A layout whose exponents can be read: before one that is not negative stands a plus or
nothing. -/
def Layout.Readable (l : Layout) : Prop := l.exponentPlus = [] ∨ l.exponentPlus = ['+']

/-- A layout's text for a decimal that is nearest to a measurement is read as a decimal of the same
value. -/
theorem decimal?_renderDecimal {l : Layout} (hl : l.Readable) {m : Nat} {q : Int} {d : Decimal}
    (hc : Binary64.Canonical m q) (hpos : 0 < d.coefficient) (h : Binary64.Near m q d.value) :
    ∃ d' : Decimal, decimal? (l.renderDecimal d) = some d' ∧ 0 < d'.coefficient ∧
      d'.value = d.value := by
  have hdigits := isDigit_toDigits d.coefficient
  have hnumber := number_toDigits d.coefficient
  have hne : Nat.toDigits 10 d.coefficient ≠ [] := Nat.toDigits_ne_nil
  unfold Layout.renderDecimal
  simp only []
  split
  · obtain ⟨k, hk⟩ := decimal?_positional l.wholePoint hdigits hne d.exponent
    rw [hnumber] at hk
    exact ⟨_, hk, Nat.mul_pos hpos (Nat.pow_pos (by decide)), value_filled d k⟩
  · -- The exponent of the first digit is that of a power of ten next to a measurement.
    obtain ⟨hlower, hupper⟩ := value_bounds hpos
    have hmax := lt_of_ten_zpow_le hc h hlower
    have hmin := lt_of_lt_ten_zpow hc h hupper
    have hsmall : (d.exponent + (Nat.toDigits 10 d.coefficient).length - 1).natAbs < 65536 := by
      omega
    have hk := decimal?_scientific hl hdigits hne hsmall
    rw [hnumber] at hk
    exact ⟨d, hk, hpos, rfl⟩

/-! ## Characters -/

/-- The characters that measurements are written with. -/
def isWritten (c : Char) : Bool :=
  c.isDigit || ['.', 'e', '-', '+', 'i', 'n', 'f', 'N', 'a'].contains c

theorem isWritten_of_isDigit {c : Char} (h : c.isDigit) : isWritten c := by
  simp [isWritten, h]

/-- The characters of a numeral that starts with a digit. -/
structure StartsWithDigit (cs : List Char) : Prop where
  first : ∃ c rest, cs = c :: rest ∧ c.isDigit
  all : ∀ c ∈ cs, isWritten c

theorem isWritten_replicate (n : Nat) : ∀ c ∈ List.replicate n '0', isWritten c :=
  fun c hc => isWritten_of_isDigit (isDigit_replicate n c hc)

theorem startsWithDigit_positional (wholePoint : Bool) {ds : List Char}
    (hds : ∀ c ∈ ds, c.isDigit) (hne : ds ≠ []) (point : Int) :
    StartsWithDigit (positional wholePoint ds point) := by
  have hwritten : ∀ c ∈ ds, isWritten c := fun c hc => isWritten_of_isDigit (hds c hc)
  have hpoint : isWritten '.' := by decide
  obtain ⟨d, more, rfl⟩ := List.exists_cons_of_ne_nil hne
  have hd : d.isDigit := hds d List.mem_cons_self
  unfold positional
  by_cases hlow : point ≤ 0
  · rw [if_pos hlow]
    refine ⟨⟨_, _, rfl, rfl⟩, List.forall_mem_cons.mpr ⟨rfl, List.forall_mem_cons.mpr ⟨hpoint, ?_⟩⟩⟩
    exact List.forall_mem_append.mpr ⟨isWritten_replicate _, hwritten⟩
  · rw [if_neg hlow]
    by_cases hhigh : (((d :: more).length : Nat) : Int) ≤ point
    · rw [if_pos hhigh]
      refine ⟨⟨d, _, by rw [List.cons_append, List.cons_append], hd⟩, ?_⟩
      refine List.forall_mem_append.mpr
        ⟨List.forall_mem_append.mpr ⟨hwritten, isWritten_replicate _⟩, ?_⟩
      cases wholePoint with
      | false => exact List.forall_mem_nil _
      | true => exact List.forall_mem_cons.mpr ⟨hpoint, isWritten_replicate 1⟩
    · rw [if_neg hhigh]
      obtain ⟨p, hp⟩ : ∃ p : Nat, point.toNat = p + 1 := ⟨point.toNat - 1, by omega⟩
      rw [hp]
      refine ⟨⟨d, _, by rw [List.take_succ_cons, List.cons_append], hd⟩, ?_⟩
      refine List.forall_mem_append.mpr ⟨fun c hc => hwritten c (List.mem_of_mem_take hc),
        List.forall_mem_cons.mpr ⟨hpoint, fun c hc => hwritten c (List.mem_of_mem_drop hc)⟩⟩

theorem startsWithDigit_scientific {plus : List Char} (hplus : plus = [] ∨ plus = ['+'])
    {ds : List Char} (hds : ∀ c ∈ ds, c.isDigit) (hne : ds ≠ []) (exponent : Int) :
    StartsWithDigit (scientific plus ds exponent) := by
  have hwritten : ∀ c ∈ ds, isWritten c := fun c hc => isWritten_of_isDigit (hds c hc)
  have hsign : ∀ c ∈ (if exponent < 0 then ['-'] else plus), isWritten c := by
    split
    · exact List.all_eq_true.mp (by decide)
    · rcases hplus with rfl | rfl
      · exact List.forall_mem_nil _
      · exact List.all_eq_true.mp (by decide)
  have htail : ∀ c ∈ 'e' :: ((if exponent < 0 then ['-'] else plus) ++
      Nat.toDigits 10 exponent.natAbs), isWritten c :=
    List.forall_mem_cons.mpr ⟨by decide, List.forall_mem_append.mpr
      ⟨hsign, fun c hc => isWritten_of_isDigit (isDigit_toDigits _ c hc)⟩⟩
  unfold scientific
  simp only []
  match ds with
  | [] => exact absurd rfl hne
  | [d] =>
    exact ⟨⟨d, _, rfl, hds d List.mem_cons_self⟩, List.forall_mem_append.mpr ⟨hwritten, htail⟩⟩
  | d :: d' :: ds =>
    obtain ⟨hd, hmore⟩ := List.forall_mem_cons.mp hwritten
    have hbody : ∀ c ∈ d :: '.' :: d' :: ds, isWritten c :=
      List.forall_mem_cons.mpr ⟨hd, List.forall_mem_cons.mpr ⟨by decide, hmore⟩⟩
    exact ⟨⟨d, _, rfl, hds d List.mem_cons_self⟩, List.forall_mem_append.mpr ⟨hbody, htail⟩⟩

theorem startsWithDigit_renderDecimal {l : Layout} (hl : l.Readable) (d : Decimal) :
    StartsWithDigit (l.renderDecimal d) := by
  have hdigits := isDigit_toDigits d.coefficient
  have hne : Nat.toDigits 10 d.coefficient ≠ [] := Nat.toDigits_ne_nil
  unfold Layout.renderDecimal
  simp only []
  split
  · exact startsWithDigit_positional _ hdigits hne _
  · exact startsWithDigit_scientific hl hdigits hne _

/-! ## Measurements in a layout -/

theorem readList_of_decimal? {cs : List Char} {d : Decimal} (hcs : StartsWithDigit cs)
    (hd : decimal? cs = some d) (negative : Bool) :
    readList (if negative then '-' :: cs else cs) = .ok (d.nearest negative) := by
  obtain ⟨c, rest, rfl, hc⟩ := hcs.first
  have hword := word?_of_isDigit hc rest
  cases negative with
  | true =>
    have hsign : sign ('-' :: c :: rest) = (true, c :: rest) := rfl
    simp [readList, hsign, hword, hd]
  | false => simp [readList, sign_of_isDigit hc, hword, hd]

/-- A number other than zero is written with its shortest digits. -/
theorem renderMagnitude_of_pos (l : Layout) {m : Nat} (hm : 0 < m) (q : Int) :
    l.renderMagnitude (.finite m q) = l.renderDecimal (shortest l.tie m q) := by
  cases m with
  | zero => cases hm
  | succ m => rfl

/-- **Read back.** What is written in a layout is read as the measurement that was written. -/
theorem readList_renderList {l : Layout} (hl : l.Readable) (x : Float) :
    readList (l.renderList x) = .ok x := by
  rcases Binary64.magnitude_cases x with
    ⟨hx, rfl⟩ | ⟨hx, hbits⟩ | ⟨hx, hbits⟩ | ⟨m, q, hx, hc, hbits⟩
  · rw [Layout.renderList, hx]
    rfl
  · rw [Layout.renderList, hx]
    generalize Binary64.isNegative x = negative at *
    subst hbits
    cases negative <;> rfl
  · rw [Layout.renderList, hx]
    generalize Binary64.isNegative x = negative at *
    subst hbits
    have hzero : l.renderMagnitude (.finite 0 (-1074)) =
        if l.wholePoint then ['0', '.', '0'] else ['0'] := rfl
    simp only [hzero]
    generalize l.wholePoint = wholePoint
    cases wholePoint <;> cases negative <;> rfl
  · obtain ⟨hpos, hnear⟩ := near_shortest l.tie hc.pos q
    obtain ⟨d, hd, hdpos, hvalue⟩ := decimal?_renderDecimal hl hc hpos hnear
    rw [Layout.renderList, hx]
    simp only [renderMagnitude_of_pos l hc.pos q]
    rw [readList_of_decimal? (startsWithDigit_renderDecimal hl _) hd,
      nearest_eq_of_near hc hdpos (by rwa [hvalue]), ← hbits]

/-- A measurement in a layout has characters, and only some. -/
theorem mem_renderList {l : Layout} (hl : l.Readable) (x : Float) :
    l.renderList x ≠ [] ∧ ∀ c ∈ l.renderList x, isWritten c := by
  have hsize : ∀ size, l.renderMagnitude size ≠ [] ∧
      ∀ c ∈ l.renderMagnitude size, isWritten c := by
    intro size
    unfold Layout.renderMagnitude
    split
    · exact ⟨by decide, List.all_eq_true.mp (by decide)⟩
    · exact ⟨by decide, List.all_eq_true.mp (by decide)⟩
    · split
      · exact ⟨by decide, List.all_eq_true.mp (by decide)⟩
      · exact ⟨by decide, List.all_eq_true.mp (by decide)⟩
    · next m q _ =>
      obtain ⟨⟨c, rest, hcs, -⟩, hall⟩ := startsWithDigit_renderDecimal hl (shortest l.tie m q)
      exact ⟨by rw [hcs]; exact List.cons_ne_nil _ _, hall⟩
  unfold Layout.renderList
  split
  · exact hsize _
  · split
    · exact ⟨List.cons_ne_nil _ _, List.forall_mem_cons.mpr ⟨by decide, (hsize _).2⟩⟩
    · exact hsize _

/-! ## Texts -/

theorem isBlank_of_isWritten {c : Char} (hc : isWritten c) : Blank.isBlank c = false := by
  rcases Bool.or_eq_true_iff.mp hc with hdigit | hmark
  · simp only [Char.isDigit, Bool.and_eq_true, decide_eq_true_eq] at hdigit
    have hlow : 48 ≤ c.toNat := hdigit.1
    have hhigh : c.toNat ≤ 57 := hdigit.2
    simp [Blank.isBlank, Blank.ranges]
    omega
  · have hmarks : ['.', 'e', '-', '+', 'i', 'n', 'f', 'N', 'a'].all fun c => !Blank.isBlank c := by
      decide
    have := List.all_eq_true.mp hmarks c (List.contains_iff_mem.mp hmark)
    rwa [Bool.not_eq_true'] at this

theorem dropWhile_isBlank {cs : List Char} (h : ∀ c ∈ cs, Blank.isBlank c = false) :
    cs.dropWhile Blank.isBlank = cs := by
  cases cs with
  | nil => rfl
  | cons c cs => exact List.dropWhile_cons_of_neg (by simp [h c])

/-- No blank stands in a layout's text, so there is nothing to trim. -/
theorem trim_render {l : Layout} (hl : l.Readable) (x : Float) :
    Blank.trim (l.render x) = l.render x := by
  have hblank : ∀ c ∈ l.renderList x, Blank.isBlank c = false := fun c hc =>
    isBlank_of_isWritten ((mem_renderList hl x).2 c hc)
  rw [Layout.render, Blank.trim, String.toList_ofList, Blank.trimList, dropWhile_isBlank hblank,
    dropWhile_isBlank fun c hc => hblank c (List.mem_reverse.mp hc), List.reverse_reverse]

theorem render_ne_empty {l : Layout} (hl : l.Readable) (x : Float) : l.render x ≠ "" := by
  intro h
  have hempty : l.renderList x = [] := by
    rw [← String.toList_ofList (l := l.renderList x)]
    exact congrArg String.toList h
  exact (mem_renderList hl x).1 hempty

theorem read_render {l : Layout} (hl : l.Readable) (x : Float) :
    Numeral.read (l.render x) = .ok x := by
  rw [Numeral.read, Layout.render, String.toList_ofList, readList_renderList hl]

theorem readable_cell : Layout.cell.Readable := .inl rfl

end Decimal

end BenchRatio
