import BenchRatio.Measurements.Reading
import BenchRatio.Proofs.Output.Cells
import BenchRatio.Proofs.Text.Utf8

/-!
# Ratios as texts

Nothing in the text of a ratio has a meaning in a table, so it is written as it is and nothing is
trimmed from it, and the number that is read back from it is the ratio to the last bit. The empty
text stands for no number: it is the cell of an undefined ratio, and a row with it is refused.

* `needsQuotes_encode`: a text with no comma, no quote and no end of a line needs no quotes.
* `mem_text`, `row_text`: what a cell consists of, and what is read back from it.
* `Ratio.text_lossless`: **no ratio is lost in its cell**.
-/

namespace BenchRatio

namespace Record

/-- A text with no comma, no quote and no end of a line is written without quotes. -/
theorem needsQuotes_encode {s : String}
    (h : ∀ c ∈ s.toList, c ≠ ',' ∧ c ≠ '"' ∧ c ≠ '\r' ∧ c ≠ '\n') :
    needsQuotes .table (Utf8.encode s) = false := by
  rw [needsQuotes, List.any_eq_false]
  intro b hb hspecial
  rw [Utf8.encode_eq] at hb
  obtain ⟨c, hc, hb⟩ := List.mem_flatMap.mp hb
  have hchar : ∀ d : Char, d.toNat < 128 → b.toNat = d.toNat → c = d := by
    intro d hd heq
    refine Char.toNat_inj.mp ?_
    rw [← heq, Utf8.toNat_eq_of_mem_utf8EncodeChar hb (heq ▸ hd)]
  obtain ⟨hcomma, hquote, hreturn, hfeed⟩ := h c hc
  simp only [isTerminator, Dialect.table, decide_eq_true_eq] at hspecial
  rcases hspecial with rfl | rfl | rfl | rfl
  · exact hcomma (hchar _ (by decide) (by decide))
  · exact hquote (hchar _ (by decide) (by decide))
  · exact hreturn (hchar _ (by decide) (by decide))
  · exact hfeed (hchar _ (by decide) (by decide))

end Record

namespace Ratio

/-- The characters of a cell mean nothing in a table, and no blank is among them. -/
theorem mem_text {r : Ratio} {c : Char} (h : c ∈ r.text.toList) :
    (c ≠ ',' ∧ c ≠ '"' ∧ c ≠ '\r' ∧ c ≠ '\n') ∧ Blank.isBlank c = false := by
  cases r with
  | undefined => cases h
  | defined value =>
    rw [text, Decimal.Layout.render, String.toList_ofList] at h
    have hwritten := (Decimal.mem_renderList Decimal.readable_cell value).2 c h
    have hne : ∀ d : Char, Decimal.isWritten d = false → c ≠ d := by
      rintro d hd rfl
      rw [hwritten] at hd
      cases hd
    have hblank := Decimal.isBlank_of_isWritten hwritten
    exact ⟨⟨hne _ rfl, hne _ rfl, hne _ rfl, hne _ rfl⟩, hblank⟩

theorem row_text (name : String) (more : List String) (value : Float) :
    Record.row (name :: text (defined value) :: more) = .ok (name, value) := by
  rw [Record.row, trim_text, read_text]

theorem text_injective : Function.Injective text := by
  intro r r' h
  cases r with
  | undefined => exact ((text_eq_empty_iff r').mp h.symm).symm
  | defined value =>
    cases r' with
    | undefined => exact (text_eq_empty_iff _).mp h
    | defined value' =>
      have hread := read_text value
      rw [h, read_text] at hread
      cases hread
      rfl

/-- **No ratio is lost in its cell.** For every 64 bits, the text of the ratio with these bits is
not empty, has no comma, no quote, no end of a line and no blank, is written without quotes and not
trimmed when it is read, and a row with it has the number with these very bits; a number that is
none is read as such. Only the undefined ratio has the empty text, which a row is refused for, and
two ratios with the same text are the same. -/
theorem text_lossless :
    (∀ (bits : UInt64) (name : String) (more : List String),
      let value := Float.ofBits bits
      let cell := text (defined value)
      cell ≠ "" ∧
      (∀ c ∈ cell.toList,
        (c ≠ ',' ∧ c ≠ '"' ∧ c ≠ '\r' ∧ c ≠ '\n') ∧ Blank.isBlank c = false) ∧
      Record.needsQuotes .table (Utf8.encode cell) = false ∧
      Blank.trim cell = cell ∧
      ∃ read, Record.row (name :: cell :: more) = .ok (name, read) ∧
        if value.isNaN then read.isNaN = true else read.toBits = bits) ∧
    (∀ r, text r = "" ↔ r = undefined) ∧
    (∀ name more, Record.row (name :: text undefined :: more) =
      .error (.notNumber name "" .empty)) ∧
    (∀ r r', text r = text r' → r = r') ∧
    ∀ bits bits', text (defined (Float.ofBits bits)) = text (defined (Float.ofBits bits')) →
      bits = bits' ∨ (Float.ofBits bits).isNaN ∧ (Float.ofBits bits').isNaN := by
  refine ⟨fun bits name more => ?_, text_eq_empty_iff, fun _ _ => rfl,
    fun _ _ h => text_injective h, fun bits bits' h => ?_⟩
  · refine ⟨mt (text_eq_empty_iff _).mp nofun, fun c => mem_text,
      Record.needsQuotes_encode fun c hc => (mem_text hc).1, trim_text _, _,
      row_text name more _, ?_⟩
    split
    · next h => exact h
    · next h => exact Binary64.toBits_ofBits (Bool.eq_false_of_not_eq_true h)
  · have hvalue : Float.ofBits bits = Float.ofBits bits' := Ratio.defined.inj (text_injective h)
    cases hnan : (Float.ofBits bits).isNaN with
    | true => exact .inr ⟨rfl, hvalue ▸ hnan⟩
    | false =>
      rw [← Binary64.toBits_ofBits hnan, hvalue, Binary64.toBits_ofBits (hvalue ▸ hnan)]
      exact .inl rfl

end Ratio

end BenchRatio
