import BenchRatio.SortedMap
import BenchRatio.Text.Utf8
import Mathlib.Tactic.Common

/-!
# Texts and their bytes

Different texts have different bytes, and of two texts the one with the smaller first differing
character has the smaller first differing byte. So the order of names, which compares characters, is
the order of their bytes.

* `eq_encode_of_decode?`: bytes that spell a text are the bytes of that text.
* `utf8EncodeChar_lt`: a smaller character has smaller bytes.
* `toNat_eq_of_mem_utf8EncodeChar`: a byte below 128 is a character by itself.
* `encode_lt_encode`: **texts are ordered like their bytes**.
-/

namespace BenchRatio.Utf8

theorem eq_encode_of_decode? {bytes : Bytes} {s : String} (h : decode? bytes = some s) :
    bytes = encode s := by
  unfold decode? String.fromUTF8? at h
  split at h
  · cases h
    rfl
  · cases h

/-- Of two numbers the smaller one has the smaller digit where their digits in base 64 differ
first. -/
theorem digits_lt {v w : Nat} (h : v < w) :
    v / 262144 < w / 262144 ∨ v / 262144 = w / 262144 ∧
      (v / 4096 % 64 < w / 4096 % 64 ∨ v / 4096 % 64 = w / 4096 % 64 ∧
        (v / 64 % 64 < w / 64 % 64 ∨ v / 64 % 64 = w / 64 % 64 ∧ v % 64 < w % 64)) := by
  have step : ∀ {m n : Nat}, m < n → m / 64 < n / 64 ∨ m / 64 = n / 64 ∧ m % 64 < n % 64 := by
    intro m n hmn
    omega
  have hsecond : ∀ n : Nat, n / 4096 = n / 64 / 64 := fun n =>
    (Nat.div_div_eq_div_mul n 64 64).symm
  have hfirst : ∀ n : Nat, n / 262144 = n / 4096 / 64 := fun n =>
    (Nat.div_div_eq_div_mul n 4096 64).symm
  rw [hfirst, hfirst, hsecond, hsecond]
  rcases step h with h1 | ⟨e1, h1⟩
  · rcases step h1 with h2 | ⟨e2, h2⟩
    · exact (step h2).imp id fun ⟨e3, h3⟩ => ⟨e3, .inl h3⟩
    · exact .inr ⟨by rw [e2], .inr ⟨by rw [e2], .inl h2⟩⟩
  · exact .inr ⟨by rw [e1], .inr ⟨by rw [e1], .inr ⟨by rw [e1], h1⟩⟩⟩

theorem ofNat_lt_ofNat {m n : Nat} (h : m < n) (hn : n < 256) : UInt8.ofNat m < UInt8.ofNat n := by
  rw [UInt8.lt_iff_toNat_lt, UInt8.toNat_ofNat', UInt8.toNat_ofNat']
  omega

/-- A smaller character has smaller bytes, whatever follows: fewer bytes start with a smaller one,
and as many hold the digits of the character, the first one first. -/
theorem utf8EncodeChar_lt {c d : Char} (h : c < d) (x y : Bytes) :
    String.utf8EncodeChar c ++ x < String.utf8EncodeChar d ++ y := by
  have hlt : c.val.toNat < d.val.toNat := h
  have hd : d.val.toNat < 0x110000 := by rcases d.valid with h | h <;> omega
  unfold String.utf8EncodeChar
  simp only []
  generalize c.val.toNat = v at *
  generalize d.val.toNat = w at *
  by_cases hfour : 65535 < v
  · -- Both characters have four bytes.
    rw [if_neg (by omega), if_neg (by omega), if_neg (by omega), if_neg (by omega),
      if_neg (by omega), if_neg (by omega), Nat.mod_eq_of_lt (show v / 262144 < 8 by omega),
      Nat.mod_eq_of_lt (show w / 262144 < 8 by omega)]
    simp only [List.cons_append, List.nil_append, List.cons_lt_cons_iff]
    rcases digits_lt hlt with h | ⟨h3, h | ⟨h2, h | ⟨h1, h⟩⟩⟩
    · exact .inl (ofNat_lt_ofNat (by omega) (by omega))
    · exact .inr ⟨by rw [h3], .inl (ofNat_lt_ofNat (by omega) (by omega))⟩
    · exact .inr ⟨by rw [h3], .inr ⟨by rw [h2], .inl (ofNat_lt_ofNat (by omega) (by omega))⟩⟩
    · exact .inr ⟨by rw [h3], .inr ⟨by rw [h2], .inr ⟨by rw [h1],
        .inl (ofNat_lt_ofNat (by omega) (by omega))⟩⟩⟩
  · split_ifs <;>
      simp only [List.cons_append, List.nil_append, List.cons_lt_cons_iff, UInt8.lt_iff_toNat_lt,
        ← UInt8.toNat_inj, UInt8.toNat_ofNat'] <;> omega

theorem flatMap_utf8EncodeChar_lt {cs ds : List Char} (h : cs < ds) :
    cs.flatMap String.utf8EncodeChar < ds.flatMap String.utf8EncodeChar := by
  induction cs generalizing ds with
  | nil =>
    cases ds with
    | nil => simp at h
    | cons d ds =>
      obtain ⟨b, bs, hd⟩ := List.exists_cons_of_ne_nil (String.utf8EncodeChar_ne_nil (c := d))
      rw [List.flatMap_nil, List.flatMap_cons, hd]
      exact List.nil_lt_cons _ _
  | cons c cs ih =>
    cases ds with
    | nil => simp at h
    | cons d ds =>
      rw [List.flatMap_cons, List.flatMap_cons]
      rcases List.cons_lt_cons_iff.mp h with hlt | ⟨rfl, hlt⟩
      · exact utf8EncodeChar_lt hlt _ _
      · exact List.append_left_lt (ih hlt)

theorem encode_eq (s : String) : encode s = s.toList.flatMap String.utf8EncodeChar := by
  conv_lhs => rw [← String.ofList_toList (s := s)]
  rw [encode, String.toUTF8_eq_toByteArray, String.toByteArray_ofList]
  exact List.toList_data_toByteArray

/-- A byte below 128 is a character by itself: the bytes of all others are above. -/
theorem toNat_eq_of_mem_utf8EncodeChar {c : Char} {b : UInt8}
    (h : b ∈ String.utf8EncodeChar c) (hb : b.toNat < 128) : b.toNat = c.toNat := by
  have hc : c.val.toNat < 0x110000 := by rcases c.valid with h | h <;> omega
  change b.toNat = c.val.toNat
  unfold String.utf8EncodeChar at h
  simp only [] at h
  generalize c.val.toNat = v at *
  split_ifs at h <;> simp only [List.mem_cons, List.not_mem_nil, or_false] at h <;>
    rcases h with rfl | rfl | rfl | rfl <;> simp only [UInt8.toNat_ofNat'] at * <;> omega

/-- **Texts are ordered like their bytes.** -/
theorem encode_lt_encode {s t : String} (h : compare s t = .lt) : encode s < encode t := by
  have hlt : s < t := compareOfLessAndEq_eq_lt.mp h
  rw [encode_eq, encode_eq]
  exact flatMap_utf8EncodeChar_lt (String.lt_iff.mp hlt)

end BenchRatio.Utf8
