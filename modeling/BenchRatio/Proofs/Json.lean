import BenchRatio.Json.Reading
import BenchRatio.Proofs.Decimal.Layout

/-!
# Written JSON is read back

* `IsUnsigned`, `isUnsigned_renderDecimal`: the form of numbers without a sign, which every layout
  writes.
* `string?_quote`: a string is read back, whatever its characters are.
* `Json.spelled`: the value that is read where a value was written.
* `read?_renderList`: **written text is read back**.
* `isControl_of_mem_renderList`: it holds no control character.
-/

namespace BenchRatio

/-! ## The form of numbers -/

namespace Digits

/-- Only zero is written with a zero in front. -/
theorem head_toDigits {n : Nat} (hpos : 0 < n) :
    ∃ d ds, Nat.toDigits 10 n = d :: ds ∧ d ≠ '0' := by
  induction n using Nat.strong_induction_on with
  | _ n ih =>
    by_cases hn : n < 10
    · refine ⟨n.digitChar, [], Nat.toDigits_of_lt_base hn, ?_⟩
      have hall : ∀ k < 10, 0 < k → k.digitChar ≠ '0' := by decide
      exact hall n hn hpos
    · obtain ⟨d, ds, hdigits, hd⟩ := ih (n / 10) (by omega) (by omega)
      refine ⟨d, ds ++ [(n % 10).digitChar], ?_, hd⟩
      rw [Nat.toDigits_of_base_le (by decide) (by omega), hdigits, List.cons_append]

end Digits

namespace Json

/-- The digits before a point. -/
def IsWhole (cs : List Char) : Prop :=
  cs = ['0'] ∨ ∃ d ds, cs = d :: ds ∧ d ≠ '0' ∧ ∀ c ∈ d :: ds, c.isDigit

/-- A point with digits, or nothing. -/
def IsFraction (cs : List Char) : Prop :=
  cs = [] ∨ ∃ ds, cs = '.' :: ds ∧ ds ≠ [] ∧ ∀ c ∈ ds, c.isDigit

/-- An exponent, or nothing. -/
def IsExponent (cs : List Char) : Prop :=
  cs = [] ∨ ∃ s ds, cs = 'e' :: (s ++ ds) ∧ (s = [] ∨ s = ['-'] ∨ s = ['+']) ∧ ds ≠ [] ∧
    ∀ c ∈ ds, c.isDigit

/-- A number without a sign. -/
def IsUnsigned (cs : List Char) : Prop :=
  ∃ whole fraction exponent, cs = whole ++ fraction ++ exponent ∧ IsWhole whole ∧
    IsFraction fraction ∧ IsExponent exponent

/-- What may follow a number: nothing that would be taken for a part of it. -/
def Stops (rest : List Char) : Prop :=
  ∀ c ∈ rest.head?, c.isDigit = false ∧ c ≠ '.' ∧ c ≠ 'e' ∧ c ≠ 'E'

theorem digits?_append {ds rest : List Char} (hne : ds ≠ []) (hds : ∀ c ∈ ds, c.isDigit)
    (hrest : ∀ c ∈ rest.head?, c.isDigit = false) : digits? (ds ++ rest) = some (ds, rest) := by
  have hend : rest.takeWhile Char.isDigit = [] ∧ rest.dropWhile Char.isDigit = rest := by
    cases rest with
    | nil => exact ⟨rfl, rfl⟩
    | cons c cs =>
      have hc : ¬ c.isDigit := by simp [hrest c rfl]
      exact ⟨List.takeWhile_cons_of_neg hc, List.dropWhile_cons_of_neg hc⟩
  obtain ⟨d, more, rfl⟩ := List.exists_cons_of_ne_nil hne
  unfold digits?
  rw [List.takeWhile_append_of_pos hds, List.dropWhile_append_of_pos hds, hend.1, hend.2,
    List.append_nil]

theorem whole?_append {whole rest : List Char} (h : IsWhole whole)
    (hrest : ∀ c ∈ rest.head?, c.isDigit = false) :
    whole? (whole ++ rest) = some (whole, rest) := by
  rcases h with rfl | ⟨d, ds, rfl, hd, hds⟩
  · rfl
  · have hdigits := digits?_append (List.cons_ne_nil d ds) hds hrest
    rw [List.cons_append] at hdigits ⊢
    unfold whole?
    split
    · next h => exact absurd (List.cons.inj h).1 hd
    · exact hdigits

theorem fraction?_append {fraction rest : List Char} (h : IsFraction fraction)
    (hrest : ∀ c ∈ rest.head?, c.isDigit = false ∧ c ≠ '.') :
    fraction? (fraction ++ rest) = some (fraction, rest) := by
  rcases h with rfl | ⟨ds, rfl, hne, hds⟩
  · rw [List.nil_append]
    unfold fraction?
    split
    · exact absurd rfl (hrest '.' rfl).2
    · rfl
  · show (digits? (ds ++ rest)).map _ = _
    rw [digits?_append hne hds fun c hc => (hrest c hc).1]
    rfl

theorem sign_append {s ds : List Char} (hs : s = [] ∨ s = ['-'] ∨ s = ['+']) (hne : ds ≠ [])
    (hds : ∀ c ∈ ds, c.isDigit) (rest : List Char) :
    sign (s ++ (ds ++ rest)) = (s, ds ++ rest) := by
  rcases hs with rfl | rfl | rfl
  · obtain ⟨d, more, rfl⟩ := List.exists_cons_of_ne_nil hne
    have hd : d.isDigit := hds d List.mem_cons_self
    rw [List.nil_append, List.cons_append]
    unfold sign
    split
    · next h => exact absurd ((List.cons.inj h).1 ▸ hd) (by decide)
    · next h => exact absurd ((List.cons.inj h).1 ▸ hd) (by decide)
    · rfl
  · rfl
  · rfl

theorem exponent?_append {exponent rest : List Char} (h : IsExponent exponent)
    (hrest : ∀ c ∈ rest.head?, c.isDigit = false ∧ c ≠ 'e' ∧ c ≠ 'E') :
    exponent? (exponent ++ rest) = some (exponent, rest) := by
  rcases h with rfl | ⟨s, ds, rfl, hs, hne, hds⟩
  · cases rest with
    | nil => rfl
    | cons c cs =>
      obtain ⟨-, he, hE⟩ := hrest c rfl
      rw [List.nil_append, exponent?, if_neg (not_or.mpr ⟨he, hE⟩)]
  · rw [List.cons_append, List.append_assoc, exponent?, if_pos (.inl rfl), sign_append hs hne hds]
    simp only [digits?_append hne hds fun c hc => (hrest c hc).1, Option.map_some]

/-- A number without a sign is read up to its end. -/
theorem unsigned?_append {cs rest : List Char} (h : IsUnsigned cs) (hrest : Stops rest) :
    unsigned? (cs ++ rest) = some (cs, rest) := by
  obtain ⟨whole, fraction, exponent, rfl, hwhole, hfraction, hexponent⟩ := h
  have hafter : ∀ c ∈ (exponent ++ rest).head?, c.isDigit = false ∧ c ≠ '.' := by
    rcases hexponent with rfl | ⟨s, ds, rfl, -⟩
    · exact fun c hc => ⟨(hrest c hc).1, (hrest c hc).2.1⟩
    · rintro c ⟨⟩
      decide
  have hbefore : ∀ c ∈ (fraction ++ (exponent ++ rest)).head?, c.isDigit = false := by
    rcases hfraction with rfl | ⟨ds, rfl, -⟩
    · exact fun c hc => (hafter c hc).1
    · rintro c ⟨⟩
      decide
  have hend : ∀ c ∈ rest.head?, c.isDigit = false ∧ c ≠ 'e' ∧ c ≠ 'E' := fun c hc =>
    ⟨(hrest c hc).1, (hrest c hc).2.2⟩
  rw [unsigned?, List.append_assoc, List.append_assoc, whole?_append hwhole hbefore]
  simp only [Option.bind_eq_bind, Option.bind_some]
  rw [fraction?_append hfraction hafter]
  simp only [Option.bind_some]
  rw [exponent?_append hexponent hend, Option.bind_some, List.append_assoc]

/-! ## Numbers in a layout -/

open Decimal Digits

variable {l : Layout}

/-- Digits with a point somewhere. -/
theorem isUnsigned_positional (wholePoint : Bool) {d : Char} {ds : List Char} (hd : d ≠ '0')
    (hds : ∀ c ∈ d :: ds, c.isDigit) (point : Int) :
    IsUnsigned (positional wholePoint (d :: ds) point) := by
  unfold positional
  by_cases hlow : point ≤ 0
  · refine ⟨['0'], '.' :: (List.replicate (-point).toNat '0' ++ d :: ds), [], ?_, .inl rfl,
      .inr ⟨_, rfl, by simp, ?_⟩, .inl rfl⟩
    · rw [if_pos hlow, List.append_nil]
      rfl
    · exact List.forall_mem_append.mpr ⟨isDigit_replicate _, hds⟩
  · rw [if_neg hlow]
    by_cases hhigh : ((d :: ds).length : Int) ≤ point
    · have hwhole : IsWhole (d :: ds ++ List.replicate (point.toNat - (d :: ds).length) '0') :=
        .inr ⟨d, _, rfl, hd, List.forall_mem_append.mpr ⟨hds, isDigit_replicate _⟩⟩
      have hfraction : IsFraction (if wholePoint then ['.', '0'] else []) := by
        cases wholePoint with
        | false => exact .inl rfl
        | true => exact .inr ⟨['0'], rfl, by decide, isDigit_replicate 1⟩
      refine ⟨_, _, [], ?_, hwhole, hfraction, .inl rfl⟩
      rw [if_pos hhigh, List.append_nil]
    · -- The point stands after the first digit and before the last one.
      obtain ⟨p, hp⟩ : ∃ p : Nat, point.toNat = p + 1 := ⟨point.toNat - 1, by omega⟩
      have hshort : p < ds.length := by
        rw [List.length_cons] at hhigh
        omega
      obtain ⟨hfirst, hmore⟩ := List.forall_mem_cons.mp hds
      refine ⟨d :: ds.take p, '.' :: ds.drop p, [], ?_, .inr ⟨d, _, rfl, hd, ?_⟩,
        .inr ⟨_, rfl, ?_, ?_⟩, .inl rfl⟩
      · rw [if_neg hhigh, hp, List.take_succ_cons, List.drop_succ_cons, List.append_nil]
      · exact List.forall_mem_cons.mpr ⟨hfirst, fun c hc => hmore c (List.mem_of_mem_take hc)⟩
      · rw [Ne, List.drop_eq_nil_iff]
        omega
      · exact fun c hc => hmore c (List.mem_of_mem_drop hc)

/-- A digit, a point and more digits if there are any, and an exponent. -/
theorem isUnsigned_scientific {plus : List Char} (hplus : plus = [] ∨ plus = ['+']) {d : Char}
    {ds : List Char} (hd : d ≠ '0') (hds : ∀ c ∈ d :: ds, c.isDigit) (e : Int) :
    IsUnsigned (scientific plus (d :: ds) e) := by
  have hsign : (if e < 0 then ['-'] else plus) = [] ∨ (if e < 0 then ['-'] else plus) = ['-'] ∨
      (if e < 0 then ['-'] else plus) = ['+'] := by
    by_cases he : e < 0
    · rw [if_pos he]
      exact .inr (.inl rfl)
    · rw [if_neg he]
      exact hplus.imp_right .inr
  have hexponent : IsExponent
      ('e' :: ((if e < 0 then ['-'] else plus) ++ Nat.toDigits 10 e.natAbs)) :=
    .inr ⟨_, _, rfl, hsign, Nat.toDigits_ne_nil, isDigit_toDigits _⟩
  obtain ⟨hfirst, hmore⟩ := List.forall_mem_cons.mp hds
  have hwhole : IsWhole [d] := .inr ⟨d, [], rfl, hd, List.forall_mem_singleton.mpr hfirst⟩
  cases ds with
  | nil => exact ⟨[d], [], _, rfl, hwhole, .inl rfl, hexponent⟩
  | cons d' ds =>
    exact ⟨[d], '.' :: d' :: ds, _, rfl, hwhole, .inr ⟨_, rfl, List.cons_ne_nil _ _, hmore⟩,
      hexponent⟩

theorem isUnsigned_renderDecimal (hl : l.Readable) {d : Decimal} (hpos : 0 < d.coefficient) :
    IsUnsigned (l.renderDecimal d) := by
  have hdigits := isDigit_toDigits d.coefficient
  obtain ⟨c, cs, hcs, hc⟩ := head_toDigits hpos
  unfold Layout.renderDecimal
  rw [hcs] at hdigits ⊢
  simp only []
  split
  · exact isUnsigned_positional _ hc hdigits _
  · exact isUnsigned_scientific hl hc hdigits _

/-- The size of a finite measurement is a number without a sign. -/
theorem isUnsigned_renderMagnitude (hl : l.Readable) {x : Float} (hx : Binary64.isFinite x) :
    Binary64.magnitude x ≠ .notANumber ∧
      IsUnsigned (l.renderMagnitude (Binary64.magnitude x)) := by
  have hexponent : Binary64.exponentField x ≠ 2047 := of_decide_eq_true hx
  rcases Binary64.magnitude_cases x with ⟨hsize, -⟩ | ⟨hsize, -⟩ | ⟨hsize, -⟩ | ⟨m, q, hsize, hc, -⟩
  · exact absurd hsize (by rw [Binary64.magnitude, if_neg hexponent]; split <;> simp)
  · exact absurd hsize (by rw [Binary64.magnitude, if_neg hexponent]; split <;> simp)
  · rw [hsize]
    refine ⟨by simp, ?_⟩
    show IsUnsigned (if l.wholePoint then ['0', '.', '0'] else ['0'])
    split
    · exact ⟨['0'], ['.', '0'], [], rfl, .inl rfl,
        .inr ⟨['0'], rfl, by decide, isDigit_replicate 1⟩, .inl rfl⟩
    · exact ⟨['0'], [], [], rfl, .inl rfl, .inl rfl, .inl rfl⟩
  · obtain ⟨hpos, -⟩ := near_shortest l.tie hc.pos q
    rw [hsize, renderMagnitude_of_pos l hc.pos q]
    exact ⟨by simp, isUnsigned_renderDecimal hl hpos⟩

/-- A number with or without a sign. -/
def IsNumber (cs : List Char) : Prop := ∃ n, IsUnsigned n ∧ (cs = n ∨ cs = '-' :: n)

theorem IsUnsigned.head {cs : List Char} (h : IsUnsigned cs) :
    ∃ d more, cs = d :: more ∧ d.isDigit := by
  obtain ⟨whole, fraction, exponent, rfl, rfl | ⟨d, ds, rfl, -, hds⟩, -⟩ := h
  · exact ⟨'0', fraction ++ exponent, rfl, rfl⟩
  · exact ⟨d, ds ++ fraction ++ exponent, rfl, hds d List.mem_cons_self⟩

theorem IsNumber.head {cs : List Char} (h : IsNumber cs) :
    ∃ c more, cs = c :: more ∧ (c.isDigit ∨ c = '-') := by
  obtain ⟨n, hn, rfl | rfl⟩ := h
  · obtain ⟨d, more, rfl, hd⟩ := hn.head
    exact ⟨d, more, rfl, .inl hd⟩
  · exact ⟨'-', n, rfl, .inr rfl⟩

/-- A number is read up to its end. -/
theorem number?_append {cs rest : List Char} (h : IsNumber cs) (hrest : Stops rest) :
    number? (cs ++ rest) = some (cs, rest) := by
  obtain ⟨n, hn, rfl | rfl⟩ := h
  · have hread := unsigned?_append hn hrest
    obtain ⟨d, more, rfl, hd⟩ := hn.head
    rw [List.cons_append] at hread ⊢
    unfold number?
    split
    · next h => exact absurd ((List.cons.inj h).1 ▸ hd) (by decide)
    · exact hread
  · show (unsigned? (n ++ rest)).map _ = _
    rw [unsigned?_append hn hrest]
    rfl

theorem isNumber_renderList (hl : l.Readable) {x : Float} (hx : Binary64.isFinite x) :
    IsNumber (l.renderList x) := by
  obtain ⟨hsize, hunsigned⟩ := isUnsigned_renderMagnitude hl hx
  refine ⟨_, hunsigned, ?_⟩
  unfold Layout.renderList
  split
  · next h => exact absurd h hsize
  · split
    · exact .inr rfl
    · exact .inl rfl

theorem isNumber_toDigits (n : Nat) : IsNumber (Nat.toDigits 10 n) := by
  refine ⟨Nat.toDigits 10 n, ⟨Nat.toDigits 10 n, [], [], by simp, ?_, .inl rfl, .inl rfl⟩, .inl rfl⟩
  rcases Nat.eq_zero_or_pos n with rfl | hpos
  · exact .inl rfl
  · obtain ⟨d, ds, hdigits, hd⟩ := head_toDigits hpos
    exact .inr ⟨d, ds, hdigits, hd, hdigits ▸ isDigit_toDigits n⟩

/-! ## Strings -/

/-- The escape of a control character spells its code point. -/
theorem unit?_escape {n : Nat} (hn : n < 0x20) (rest : List Char) :
    unit? ('0' :: '0' :: hexDigit (n / 16) :: hexDigit (n % 16) :: rest) = some (n, rest) := by
  have hall : ∀ k < 0x20, ['0', '0', hexDigit (k / 16), hexDigit (k % 16)].all isHexDigit ∧
      Digits.number 16 ['0', '0', hexDigit (k / 16), hexDigit (k % 16)] = k := by
    decide +kernel
  rw [unit?, if_pos (hall n hn).1, (hall n hn).2]

/-- A character is read back from its escape. -/
theorem character?_escape (c : Char) (rest : List Char) :
    character? (escape c ++ rest) = some (c, rest) := by
  have hchar : ∀ n, c.toNat = n → c = Char.ofNat n := fun n hn => hn ▸ (Char.ofNat_toNat c).symm
  unfold escape
  split_ifs with hquote hback hb ht hn hf hr hcontrol
  · rw [hquote]
    rfl
  · rw [hback]
    rfl
  · rw [hchar _ hb]
    rfl
  · rw [hchar _ ht]
    rfl
  · rw [hchar _ hn]
    rfl
  · rw [hchar _ hf]
    rfl
  · rw [hchar _ hr]
    rfl
  · have hvalid : c.toNat.isValidChar := c.valid
    show codePoint? ('0' :: '0' :: hexDigit (c.toNat / 16) :: hexDigit (c.toNat % 16) :: rest) = _
    unfold codePoint?
    rw [unit?_escape hcontrol]
    simp only [Option.bind_eq_bind, Option.bind_some]
    rw [if_pos hvalid, Char.ofNat_toNat]
  · rw [List.singleton_append]
    unfold character?
    split
    · next h => exact absurd (List.cons.inj h).1 hback
    · next h => exact absurd (List.cons.inj h).1 hback
    · next c' cs _ _ h =>
      obtain ⟨rfl, rfl⟩ := List.cons.inj h
      rw [if_neg (not_or.mpr ⟨hback, by simpa [isControl] using hcontrol⟩)]
    · next h => cases h

theorem head_escape (c : Char) : ∃ d more, escape c = d :: more ∧ d ≠ '"' := by
  unfold escape
  split_ifs with hquote
  all_goals first | exact ⟨'\\', _, rfl, by decide⟩ | exact ⟨c, [], rfl, hquote⟩

/-- The characters of a string are read back. -/
theorem characters?_escape {s : List Char} {bound : Nat} (hbound : s.length ≤ bound)
    (rest : List Char) : characters? bound (s.flatMap escape ++ '"' :: rest) = some (s, rest) := by
  induction s generalizing bound with
  | nil => cases bound <;> rfl
  | cons c s ih =>
    obtain ⟨n, rfl⟩ : ∃ n, bound = n + 1 := Nat.exists_eq_succ_of_ne_zero (by
      rw [List.length_cons] at hbound
      omega)
    obtain ⟨d, more, hescape, hd⟩ := head_escape c
    have hread := character?_escape c (s.flatMap escape ++ '"' :: rest)
    rw [List.flatMap_cons, List.append_assoc]
    rw [hescape, List.cons_append] at hread ⊢
    unfold characters?
    split
    · next h => exact absurd (List.cons.inj h).1 hd
    · next hsucc _ =>
      obtain rfl := Nat.succ.inj hsucc
      rw [hread]
      simp only [Option.bind_eq_bind, Option.bind_some]
      rw [ih (Nat.le_of_succ_le_succ hbound), Option.bind_some]
    · next hzero _ => cases hzero

/-- A string is read back. -/
theorem string?_quote {s : String} {bound : Nat} (hbound : s.toList.length ≤ bound)
    (rest : List Char) : string? bound (quote s ++ rest) = some (s, rest) := by
  show (characters? bound ((s.toList.flatMap escape ++ ['"']) ++ rest)).map _ = _
  rw [List.append_assoc, List.singleton_append, characters?_escape hbound]
  show some (String.ofList s.toList, rest) = _
  rw [String.ofList_toList]

/-! ## Values -/

/-- Induction over values, with the hypothesis for every item and for the value of every member. -/
@[elab_as_elim, induction_eliminator]
theorem induct {motive : Json → Prop} (count : ∀ n, motive (.count n))
    (number : ∀ x, motive (.number x)) (text : ∀ s, motive (.text s))
    (array : ∀ items, (∀ j ∈ items, motive j) → motive (.array items))
    (object : ∀ members, (∀ m ∈ members, motive m.2) → motive (.object members)) (j : Json) :
    motive j :=
  @Json.rec motive (fun items => ∀ j ∈ items, motive j) (fun members => ∀ m ∈ members, motive m.2)
    (fun m => motive m.2) count number text array object (List.forall_mem_nil _)
    (fun _ _ hitem hmore => List.forall_mem_cons.mpr ⟨hitem, hmore⟩) (List.forall_mem_nil _)
    (fun _ _ hmember hmore => List.forall_mem_cons.mpr ⟨hmember, hmore⟩) (fun _ _ h => h) j

mutual

/-- The value that is read where a value was written. -/
def spelled : Json → Value
  | .count n => .numeral (Nat.toDigits 10 n)
  | .number x => if Binary64.isFinite x then .numeral (Layout.json.renderList x) else .null
  | .text s => .text s
  | .array items => .array (spelledItems items)
  | .object members => .object (spelledMembers members)

/-- The values of items. -/
def spelledItems : List Json → List Value
  | [] => []
  | item :: more => spelled item :: spelledItems more

/-- The values of members. -/
def spelledMembers : List (String × Json) → List (String × Value)
  | [] => []
  | (name, j) :: more => (name, spelled j) :: spelledMembers more

end

@[simp] theorem spelledItems_eq (items : List Json) : spelledItems items = items.map spelled := by
  induction items with
  | nil => rfl
  | cons item more ih => rw [spelledItems, ih, List.map_cons]

@[simp] theorem spelledMembers_eq (members : List (String × Json)) :
    spelledMembers members = members.map fun m => (m.1, spelled m.2) := by
  induction members with
  | nil => rfl
  | cons m more ih => rw [spelledMembers, ih, List.map_cons]

/-- A member as it is written. -/
def renderMember (m : String × Json) : List Char := quote m.1 ++ ':' :: renderList m.2

/-- Things with commas between them and a closing mark at the end. -/
def listed {β : Type} (render : β → List Char) (close : Char) : List β → List Char
  | [] => [close]
  | b :: bs => render b ++ (bs.flatMap (fun b => ',' :: render b) ++ [close])

theorem renderList_array (items : List Json) :
    renderList (.array items) = '[' :: listed renderList ']' items := by
  have hitems : ∀ items : List Json,
      renderItems items = items.flatMap (fun j => ',' :: renderList j) ++ [']'] := by
    intro items
    induction items with
    | nil => rfl
    | cons item more ih => simp [renderItems, ih]
  cases items with
  | nil => rfl
  | cons item more => rw [renderList, hitems, listed]

theorem renderList_object (members : List (String × Json)) :
    renderList (.object members) = '\x7b' :: listed renderMember '\x7d' members := by
  have hmembers : ∀ members : List (String × Json),
      renderMembers members = members.flatMap (fun m => ',' :: renderMember m) ++ ['\x7d'] := by
    intro members
    induction members with
    | nil => rfl
    | cons m more ih => simp [renderMembers, renderMember, ih]
  cases members with
  | nil => rfl
  | cons m more => rw [renderList, hmembers, listed, renderMember, List.append_assoc,
      List.cons_append]

/-- How a value starts: with no blank, and with no mark that ends a list. -/
def Opens (cs : List Char) : Prop :=
  ∃ c more, cs = c :: more ∧ isBlank c = false ∧ c ≠ ']' ∧ c ≠ '\x7d'

theorem Opens.skipBlanks {cs : List Char} (h : Opens cs) (rest : List Char) :
    skipBlanks (cs ++ rest) = cs ++ rest := by
  obtain ⟨c, more, rfl, hc, -⟩ := h
  exact List.dropWhile_cons_of_neg (by simp [hc])

theorem IsNumber.opens {cs : List Char} (h : IsNumber cs) : Opens cs := by
  obtain ⟨c, more, rfl, hc⟩ := h.head
  refine ⟨c, more, rfl, ?_⟩
  rcases hc with hdigit | rfl
  · have hne : ∀ d : Char, d.isDigit = false → c ≠ d := by
      rintro d hd rfl
      simp [hd] at hdigit
    refine ⟨?_, hne ']' rfl, hne '\x7d' rfl⟩
    simp [isBlank, hne ' ' rfl, hne '\t' rfl, hne '\n' rfl, hne '\r' rfl]
  · decide

theorem opens_renderList (j : Json) : Opens (renderList j) := by
  cases j with
  | count n => exact (isNumber_toDigits n).opens
  | number x =>
    show Opens (if Binary64.isFinite x then _ else _)
    split
    · next hx => exact (isNumber_renderList (.inr rfl) hx).opens
    · exact ⟨'n', _, rfl, by decide⟩
  | text s => exact ⟨'"', _, rfl, by decide⟩
  | array items => cases items <;> exact ⟨'[', _, rfl, by decide⟩
  | object members => cases members <;> exact ⟨'\x7b', _, rfl, by decide⟩

theorem opens_renderMember (m : String × Json) : Opens (renderMember m) :=
  ⟨'"', _, rfl, by decide⟩

section

variable {α β : Type} {item : Reader α} {render : β → List Char} {read : β → α} {close : Char}
  {bs : List β} (hclose : close = ']' ∨ close = '\x7d')
  (hitem : ∀ b ∈ bs, ∀ rest, Stops rest → item (render b ++ rest) = some (read b, rest))

include hclose

/-- What follows an item in a list. -/
theorem stops_more (bs : List β) (rest : List Char) :
    Stops (bs.flatMap (fun b => ',' :: render b) ++ close :: rest) := by
  cases bs with
  | nil =>
    rcases hclose with rfl | rfl <;>
    · rintro c ⟨⟩
      decide
  | cons b bs =>
    rintro c ⟨⟩
    decide

include hitem

/-- Items with a comma before each are read back, if each of them is. -/
theorem moreItems?_append {bound : Nat} (hbound : bs.length < bound) (rest : List Char) :
    moreItems? item close bound (bs.flatMap (fun b => ',' :: render b) ++ close :: rest) =
      some (bs.map read, rest) := by
  induction bs generalizing bound with
  | nil =>
    obtain ⟨n, rfl⟩ : ∃ n, bound = n + 1 := Nat.exists_eq_succ_of_ne_zero (Nat.ne_of_gt hbound)
    have hskip : skipBlanks (close :: rest) = close :: rest := by
      rcases hclose with rfl | rfl <;> rfl
    rw [List.flatMap_nil, List.nil_append, moreItems?, hskip]
    exact if_pos rfl
  | cons b bs ih =>
    obtain ⟨n, rfl⟩ : ∃ n, bound = n + 1 := Nat.exists_eq_succ_of_ne_zero (Nat.ne_zero_of_lt hbound)
    obtain ⟨hb, hmore⟩ := List.forall_mem_cons.mp hitem
    have hcomma : ',' ≠ close := by
      rcases hclose with rfl | rfl <;> decide
    have hrest := ih hmore (Nat.lt_of_succ_lt_succ hbound)
    rw [List.flatMap_cons, List.append_assoc, List.cons_append, moreItems?]
    have hskip : ∀ cs, skipBlanks (',' :: cs) = ',' :: cs := fun _ => rfl
    rw [hskip]
    simp only [if_neg hcomma, if_true]
    rw [hb _ (stops_more hclose bs rest)]
    simp only [Option.bind_eq_bind, Option.bind_some]
    rw [hrest, Option.bind_some, List.map_cons]

/-- Items with commas between them are read back, if each of them is. -/
theorem items?_listed (hopens : ∀ b ∈ bs, Opens (render b)) {bound : Nat}
    (hbound : bs.length < bound) (rest : List Char) :
    items? item close bound (listed render close bs ++ rest) = some (bs.map read, rest) := by
  cases bs with
  | nil =>
    have hskip : skipBlanks (close :: rest) = close :: rest := by
      rcases hclose with rfl | rfl <;> rfl
    rw [listed, List.singleton_append, items?, hskip]
    exact if_pos rfl
  | cons b bs =>
    obtain ⟨hb, hmore⟩ := List.forall_mem_cons.mp hitem
    have hfirst : Opens (render b) := hopens b List.mem_cons_self
    have hread := hb (bs.flatMap (fun b => ',' :: render b) ++ close :: rest)
      (stops_more hclose bs rest)
    rw [listed, List.append_assoc, List.append_assoc, List.singleton_append, items?,
      hfirst.skipBlanks]
    obtain ⟨c, more, hc, -, hbracket, hbrace⟩ := hfirst
    rw [hc, List.cons_append] at hread ⊢
    have hne : c ≠ close := by
      rcases hclose with rfl | rfl
      · exact hbracket
      · exact hbrace
    simp only [if_neg hne]
    rw [hread]
    simp only [Option.bind_eq_bind, Option.bind_some]
    rw [moreItems?_append hclose hmore (Nat.lt_of_succ_lt hbound), Option.bind_some, List.map_cons]

end

/-- A member is read back, if its value is. -/
theorem member?_append {value : Reader Value} {bound : Nat} {m : String × Json}
    (hbound : m.1.toList.length ≤ bound)
    (hvalue : ∀ rest, Stops rest → value (renderList m.2 ++ rest) = some (spelled m.2, rest))
    {rest : List Char} (hrest : Stops rest) :
    member? value bound (renderMember m ++ rest) = some ((m.1, spelled m.2), rest) := by
  unfold member?
  rw [(opens_renderMember m).skipBlanks, renderMember, List.append_assoc, string?_quote hbound]
  simp only [Option.bind_eq_bind, Option.bind_some]
  show (value (renderList m.2 ++ rest)).map _ = _
  rw [hvalue rest hrest]
  rfl

/-! ## Lengths -/

theorem length_le_length_flatMap {α : Type} {f : α → List Char} {as : List α}
    (h : ∀ a ∈ as, f a ≠ []) : as.length ≤ (as.flatMap f).length := by
  have hsum := List.length_le_sum_of_one_le (as.map fun a => (f a).length) (by
    intro n hn
    obtain ⟨a, ha, rfl⟩ := List.mem_map.mp hn
    exact List.length_pos_iff.mpr (h a ha))
  rwa [List.length_map, ← List.length_flatMap] at hsum

theorem length_le_flatMap_of_mem {α : Type} (f : α → List Char) {as : List α} {a : α}
    (h : a ∈ as) : (f a).length ≤ (as.flatMap f).length := by
  rw [List.flatMap_def]
  exact (List.sublist_flatten_of_mem (List.mem_map_of_mem h)).length_le

theorem length_le_listed {β : Type} (render : β → List Char) (close : Char) (bs : List β) :
    bs.length ≤ (listed render close bs).length := by
  cases bs with
  | nil => exact Nat.zero_le _
  | cons b bs =>
    have hmore : bs.length ≤ (bs.flatMap fun b => ',' :: render b).length :=
      length_le_length_flatMap fun _ _ => List.cons_ne_nil _ _
    rw [listed, List.length_append, List.length_append, List.length_cons, List.length_singleton]
    omega

theorem length_render_lt_listed {β : Type} (render : β → List Char) (close : Char) {bs : List β}
    {b : β} (h : b ∈ bs) : (render b).length < (listed render close bs).length := by
  cases bs with
  | nil => cases h
  | cons first bs =>
    rw [listed, List.length_append, List.length_append, List.length_singleton]
    rcases List.mem_cons.mp h with rfl | hmem
    · omega
    · have hle := length_le_flatMap_of_mem (fun b => ',' :: render b) hmem
      rw [List.length_cons] at hle
      omega

theorem length_lt_quote (s : String) : s.toList.length < (quote s).length := by
  have hescape : ∀ c ∈ s.toList, escape c ≠ [] := by
    intro c _
    obtain ⟨d, more, hc, -⟩ := head_escape c
    rw [hc]
    exact List.cons_ne_nil d more
  have := length_le_length_flatMap hescape
  rw [quote, List.length_cons, List.length_append]
  omega

/-! ## Reading back -/

/-- A number is read as it is spelled. -/
theorem value?_number {cs rest : List Char} (h : IsNumber cs) (hrest : Stops rest)
    (bound depth : Nat) : value? bound (depth + 1) (cs ++ rest) = some (.numeral cs, rest) := by
  have hread := number?_append h hrest
  rw [value?, h.opens.skipBlanks]
  obtain ⟨c, more, rfl, hc⟩ := h.head
  have hne : ∀ d : Char, d.isDigit = false → d ≠ '-' → c ≠ d := by
    rintro d hd hminus rfl
    rcases hc with hdigit | hsign
    · simp [hd] at hdigit
    · exact hminus hsign
  have hword : word? (c :: more ++ rest) = none := by
    rw [List.cons_append]
    unfold word?
    split
    · next h => exact absurd (List.cons.inj h).1 (hne 'n' rfl (by decide))
    · next h => exact absurd (List.cons.inj h).1 (hne 't' rfl (by decide))
    · next h => exact absurd (List.cons.inj h).1 (hne 'f' rfl (by decide))
    · rfl
  split
  · next h => exact absurd (List.cons.inj h).1 (hne '"' rfl (by decide))
  · next h => exact absurd (List.cons.inj h).1 (hne '[' rfl (by decide))
  · next h => exact absurd (List.cons.inj h).1 (hne '\x7b' rfl (by decide))
  · rw [hword, hread]
    rfl

/-- A value is read back, whatever follows it. Its length bounds both how deep it is nested and how
much it holds. -/
theorem value?_renderList (j : Json) {bound depth : Nat} (hbound : (renderList j).length < bound)
    (hdepth : (renderList j).length ≤ depth) {rest : List Char} (hrest : Stops rest) :
    value? bound (depth + 1) (renderList j ++ rest) = some (spelled j, rest) := by
  induction j generalizing depth rest with
  | count n => exact value?_number (isNumber_toDigits n) hrest bound depth
  | number x =>
    rw [renderList, numeral, spelled]
    split
    · next hx => exact value?_number (isNumber_renderList (.inr rfl) hx) hrest bound depth
    · rfl
  | text s =>
    have hlength : s.toList.length ≤ bound := ((length_lt_quote s).trans hbound).le
    show (string? bound (quote s ++ rest)).map _ = _
    rw [string?_quote hlength]
    rfl
  | array items ih =>
    rw [renderList_array, List.length_cons] at hbound hdepth
    obtain ⟨d, rfl⟩ : ∃ d, depth = d + 1 := Nat.exists_eq_succ_of_ne_zero (by omega)
    have hitem : ∀ j ∈ items, ∀ rest, Stops rest →
        value? bound (d + 1) (renderList j ++ rest) = some (spelled j, rest) := by
      intro j hj rest hrest
      have hlength := length_render_lt_listed renderList ']' hj
      exact ih j hj (by omega) (by omega) hrest
    have hcount : items.length < bound := by
      have := length_le_listed renderList ']' items
      omega
    have hread := items?_listed (.inl rfl) hitem (fun j _ => opens_renderList j) hcount rest
    rw [renderList_array]
    show (items? (value? bound (d + 1)) ']' bound (listed renderList ']' items ++ rest)).map _ = _
    rw [hread, spelled, spelledItems_eq]
    rfl
  | object members ih =>
    rw [renderList_object, List.length_cons] at hbound hdepth
    obtain ⟨d, rfl⟩ : ∃ d, depth = d + 1 := Nat.exists_eq_succ_of_ne_zero (by omega)
    have hmember : ∀ m ∈ members, ∀ rest, Stops rest →
        member? (value? bound (d + 1)) bound (renderMember m ++ rest) =
          some ((m.1, spelled m.2), rest) := by
      intro m hm rest hrest
      have hlength := length_render_lt_listed renderMember '\x7d' hm
      have hname := length_lt_quote m.1
      rw [renderMember, List.length_append, List.length_cons] at hlength
      exact member?_append (by omega) (fun rest hrest => ih m hm (by omega) (by omega) hrest) hrest
    have hcount : members.length < bound := by
      have := length_le_listed renderMember '\x7d' members
      omega
    have hread := items?_listed (.inr rfl) hmember (fun m _ => opens_renderMember m) hcount rest
    rw [renderList_object]
    show (items? (member? (value? bound (d + 1)) bound) '\x7d' bound
      (listed renderMember '\x7d' members ++ rest)).map _ = _
    rw [hread, spelled, spelledMembers_eq]
    rfl

/-- **Written text is read back.** Every value is read back from the line it is written on. -/
theorem read?_renderList (j : Json) : read? (renderList j) = some (spelled j) := by
  have hstop : Stops [] := nofun
  have hread := value?_renderList j (Nat.lt_succ_self _) (Nat.le_refl _) hstop
  rw [List.append_nil] at hread
  rw [read?, hread]
  rfl

/-! ## Characters -/

theorem isControl_of_all {cs : List Char} (h : cs.all (!isControl ·)) :
    ∀ c ∈ cs, isControl c = false := by
  simpa using h

theorem isControl_of_isWritten {c : Char} (h : isWritten c) : isControl c = false := by
  rcases Bool.or_eq_true_iff.mp h with hdigit | hmark
  · simp only [Char.isDigit, Bool.and_eq_true, decide_eq_true_eq] at hdigit
    have hlow : 48 ≤ c.toNat := hdigit.1
    have hnot : ¬ c.toNat < 0x20 := by omega
    exact decide_eq_false hnot
  · exact isControl_of_all (by decide) c (List.contains_iff_mem.mp hmark)

theorem isControl_of_mem_escape (c : Char) : ∀ d ∈ escape c, isControl d = false := by
  unfold escape
  split_ifs with _ _ _ _ _ _ _ hcontrol
  all_goals try exact isControl_of_all (by decide)
  · have hall : ∀ k < 0x20, ['\\', 'u', '0', '0', hexDigit (k / 16), hexDigit (k % 16)].all
        (!isControl ·) := by
      decide +kernel
    exact isControl_of_all (hall _ hcontrol)
  · exact List.forall_mem_singleton.mpr (decide_eq_false hcontrol)

theorem isControl_of_mem_quote (s : String) : ∀ c ∈ quote s, isControl c = false := by
  refine List.forall_mem_cons.mpr ⟨by decide, List.forall_mem_append.mpr
    ⟨fun c hc => ?_, isControl_of_all (by decide)⟩⟩
  obtain ⟨d, -, hd⟩ := List.mem_flatMap.mp hc
  exact isControl_of_mem_escape d c hd

theorem isControl_of_mem_listed {β : Type} {render : β → List Char} {close : Char}
    (hclose : isControl close = false) {bs : List β}
    (h : ∀ b ∈ bs, ∀ c ∈ render b, isControl c = false) :
    ∀ c ∈ listed render close bs, isControl c = false := by
  cases bs with
  | nil => exact List.forall_mem_singleton.mpr hclose
  | cons b bs =>
    obtain ⟨hb, hmore⟩ := List.forall_mem_cons.mp h
    refine List.forall_mem_append.mpr ⟨hb, List.forall_mem_append.mpr
      ⟨fun c hc => ?_, List.forall_mem_singleton.mpr hclose⟩⟩
    obtain ⟨b', hb', hmem⟩ := List.mem_flatMap.mp hc
    exact List.forall_mem_cons.mpr ⟨by decide, hmore b' hb'⟩ c hmem

/-- No control character stands in a written value. -/
theorem isControl_of_mem_renderList (j : Json) : ∀ c ∈ renderList j, isControl c = false := by
  induction j with
  | count n =>
    exact fun c hc => isControl_of_isWritten (isWritten_of_isDigit (isDigit_toDigits n c hc))
  | number x =>
    rw [renderList, numeral]
    split
    · exact fun c hc => isControl_of_isWritten ((mem_renderList (.inr rfl) x).2 c hc)
    · exact isControl_of_all (by decide)
  | text s => exact isControl_of_mem_quote s
  | array items ih =>
    rw [renderList_array]
    exact List.forall_mem_cons.mpr ⟨by decide, isControl_of_mem_listed (by decide) ih⟩
  | object members ih =>
    have hmember : ∀ m ∈ members, ∀ c ∈ renderMember m, isControl c = false := fun m hm =>
      List.forall_mem_append.mpr ⟨isControl_of_mem_quote m.1,
        List.forall_mem_cons.mpr ⟨by decide, ih m hm⟩⟩
    rw [renderList_object]
    exact List.forall_mem_cons.mpr ⟨by decide, isControl_of_mem_listed (by decide) hmember⟩

end Json

end BenchRatio
