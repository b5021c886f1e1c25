import BenchRatio.Proofs.Json
import BenchRatio.Proofs.Toml.Names

/-!
# Documents of texts and lists

Any texts and lists of texts can be given to keys in a document, whatever their characters are.

* `Written`, `document`: keys with their values, one on each line.
* `quotedRest?_flatMap`: a text is read back from its escapes.
* `value_render`: a value is read back.
* `parse_document`: **a written document is read back**.
-/

namespace BenchRatio.Toml

/-- A value of a key. -/
inductive Written
  | text (s : String)
  | list (ss : List String)

/-- A character between double quotes. Every character that may not stand there is escaped. -/
def escape (c : Char) : List Char :=
  if c = '"' ∨ c = '\\' then ['\\', c]
  else if c.toNat < 0x20 ∨ c = '\x7f' then
    ['\\', 'u', '0', '0', Json.hexDigit (c.toNat / 16), Json.hexDigit (c.toNat % 16)]
  else [c]

/-- A text between double quotes. -/
def quote (s : String) : List Char := '"' :: (s.toList.flatMap escape ++ ['"'])

namespace Written

/-- A value as it is written. -/
def render : Written → List Char
  | .text s => quote s
  | .list ss => '[' :: Json.listed quote ']' ss

/-- The value that is read where a value was written. Where the items of a list stand is left
open. -/
def IsValue (w : Written) (v : Value) : Prop :=
  match w with
  | .text s => v = .text s
  | .list ss => ∃ items : List (Located Value), v = .list items ∧ items.map (·.value) = ss.map .text

end Written

/-- A key and its value on a line. -/
def entry (e : String × Written) : List Char :=
  e.1.toList ++ ' ' :: '=' :: ' ' :: (e.2.render ++ ['\n'])

/-- Keys and their values, one on each line. -/
def document (ws : List (String × Written)) : List Char := ws.flatMap entry

/-! ## Texts -/

theorem codePoint?_escape {c : Char} (hc : c.toNat < 0x20 ∨ c = '\x7f') :
    codePoint? ['0', '0', Json.hexDigit (c.toNat / 16), Json.hexDigit (c.toNat % 16)] = some c := by
  have hall : ∀ k < 128, codePoint? ['0', '0', Json.hexDigit (k / 16), Json.hexDigit (k % 16)] =
      some (Char.ofNat k) := by
    decide +kernel
  have hlt : c.toNat < 128 := by
    rcases hc with hlow | rfl
    · omega
    · decide
  rw [hall _ hlt, Char.ofNat_toNat]

/-- A character is read back from its escape. -/
theorem quotedRest?_append (c : Char) (cs : List Char) :
    quotedRest? (escape c ++ cs) = (quotedRest? cs).map fun (xs, rest) => (c :: xs, rest) := by
  unfold escape
  split_ifs with hmark hcontrol
  · rcases hmark with rfl | rfl
    · show (quotedRest? cs).bind _ = _
      cases quotedRest? cs <;> rfl
    · show (quotedRest? cs).bind _ = _
      cases quotedRest? cs <;> rfl
  · show (codePoint? _).bind _ = _
    rw [codePoint?_escape hcontrol]
    show (quotedRest? cs).bind _ = _
    cases quotedRest? cs <;> rfl
  · obtain ⟨hquote, hback⟩ := not_or.mp hmark
    obtain ⟨hlow, hdelete⟩ := not_or.mp hcontrol
    have hspace : ' ' ≤ c := Nat.le_of_not_lt hlow
    have hchar : isQuotedChar c = true := by
      simp [isQuotedChar, isCommentChar, hspace, hdelete, hquote, hback]
    rw [List.singleton_append]
    conv_lhs => unfold quotedRest?
    split
    · next h => exact absurd (List.cons.inj h).1 hquote
    · next h => exact absurd (List.cons.inj h).1 hback
    · next h => exact absurd (List.cons.inj h).1 hback
    · next h => exact absurd (List.cons.inj h).1 hback
    · next h =>
      obtain ⟨rfl, rfl⟩ := List.cons.inj h
      rw [if_pos hchar]
    · next h => cases h

theorem head_escape (c : Char) : ∃ d more, escape c = d :: more ∧ d ≠ '"' := by
  unfold escape
  split_ifs with hmark hcontrol
  · exact ⟨'\\', _, rfl, by decide⟩
  · exact ⟨'\\', _, rfl, by decide⟩
  · exact ⟨c, [], rfl, fun h => hmark (.inl h)⟩

theorem quotedRest?_flatMap (s rest : List Char) :
    quotedRest? (s.flatMap escape ++ '"' :: rest) = some (s, rest) := by
  induction s with
  | nil => rfl
  | cons c s ih =>
    rw [List.flatMap_cons, List.append_assoc, quotedRest?_append, ih]
    rfl

/-- A text is read back, unless another quote follows. -/
theorem text?_quote (s : String) {rest : List Char} (hrest : ∀ c ∈ rest.head?, c ≠ '"') :
    text? (quote s ++ rest) = some (s, rest) := by
  have hline : quotedLine? ('"' :: (s.toList.flatMap escape ++ '"' :: rest)) = some (s, rest) := by
    show asText (quotedRest? _) = _
    rw [quotedRest?_flatMap]
    show some (String.ofList s.toList, rest) = _
    rw [String.ofList_toList]
  rw [quote, List.cons_append, List.append_assoc, List.singleton_append]
  unfold text?
  split
  · next cs h =>
    -- Two quotes at the start are those of an empty text.
    exfalso
    have htail := (List.cons.inj h).2
    cases hs : s.toList with
    | nil =>
      rw [hs] at htail
      exact hrest '"' (by rw [(List.cons.inj htail).2]; rfl) rfl
    | cons c more =>
      obtain ⟨d, ds, hescape, hd⟩ := head_escape c
      rw [hs, List.flatMap_cons, hescape] at htail
      exact hd (List.cons.inj htail).1
  · next h => exact absurd (List.cons.inj h).1 (by decide)
  · next h => exact absurd (List.cons.inj h).1 (by decide)
  · exact hline

/-! ## Values -/

section

variable (bound : Nat) {rest : List Char}

theorem value_text (depth : Nat) (s : String) (hrest : ∀ c ∈ rest.head?, c ≠ '"') :
    value bound depth (quote s ++ rest) = .ok (.text s, rest) := by
  have htext := text?_quote s hrest
  have hscalar : scalar? (quote s ++ rest) = some (.text s, rest) := by
    show (text? (quote s ++ rest)).map _ = _
    rw [htext]
    rfl
  cases depth <;>
  · show require (scalar? (quote s ++ rest)) = _
    rw [hscalar]
    rfl

/-- Nothing is skipped where a value starts or a list goes on or ends. -/
theorem skipEmptyLines_mark {c : Char} (hc : c = '"' ∨ c = ',' ∨ c = ']') (cs : List Char) :
    skipEmptyLines (c :: cs) = c :: cs := by
  have hnone : lineBreak? (skipComment (skipBlanks (c :: cs))) = none := by
    rcases hc with rfl | rfl | rfl <;> rfl
  rw [skipEmptyLines]
  split
  · next h => simp [hnone] at h
  · rcases hc with rfl | rfl | rfl <;> rfl

/-- An item of a list with what may stand around it. -/
abbrev item (depth : Nat) : Part (Located Value) := fun cs =>
  (placed (value bound depth) (skipEmptyLines cs)).map fun (v, rest) => (v, skipEmptyLines rest)

theorem item_quote (depth : Nat) (s : String) {c : Char} (hc : c = ',' ∨ c = ']')
    (cs : List Char) :
    ∃ v : Located Value, item bound depth (quote s ++ c :: cs) = .ok (v, c :: cs) ∧
      v.value = .text s := by
  have hquote : ∀ d ∈ (c :: cs).head?, d ≠ '"' := by
    rintro d ⟨⟩
    rcases hc with rfl | rfl <;> decide
  have hskip : skipEmptyLines (quote s ++ c :: cs) = quote s ++ c :: cs :=
    skipEmptyLines_mark (.inl rfl) _
  refine ⟨⟨⟨quote s ++ c :: cs, c :: cs⟩, .text s⟩, ?_, rfl⟩
  rw [item, hskip, placed, value_text bound depth s hquote]
  show Except.ok (_, skipEmptyLines (c :: cs)) = _
  rw [skipEmptyLines_mark (.inr hc)]

/-- What follows an item is the next comma or the closing bracket. -/
theorem moreQuotes_head (ss : List String) (cs : List Char) :
    ∃ c more, ss.flatMap (fun s => ',' :: quote s) ++ ']' :: cs = c :: more ∧
      (c = ',' ∨ c = ']') := by
  cases ss with
  | nil => exact ⟨']', cs, rfl, .inr rfl⟩
  | cons s ss => exact ⟨',', _, rfl, .inl rfl⟩

/-- Texts with a comma before each are read back as items. -/
theorem moreItems_quotes (depth : Nat) {ss : List String} {count : Nat} (hcount : ss.length ≤ count)
    (cs : List Char) :
    ∃ items : List (Located Value),
      moreItems (item bound depth) count (ss.flatMap (fun s => ',' :: quote s) ++ ']' :: cs) =
        .ok (items, ']' :: cs) ∧ items.map (·.value) = ss.map .text := by
  induction ss generalizing count with
  | nil => exact ⟨[], by cases count <;> rfl, rfl⟩
  | cons s ss ih =>
    obtain ⟨n, rfl⟩ : ∃ n, count = n + 1 := Nat.exists_eq_succ_of_ne_zero (by
      rw [List.length_cons] at hcount
      omega)
    obtain ⟨items, hitems, hvalues⟩ := ih (Nat.le_of_succ_le_succ hcount)
    obtain ⟨c, more, hmore, hc⟩ := moreQuotes_head ss cs
    obtain ⟨v, hv, hvalue⟩ := item_quote bound depth s hc more
    refine ⟨v :: items, ?_, by rw [List.map_cons, List.map_cons, hvalue, hvalues]⟩
    rw [List.flatMap_cons, List.append_assoc, List.cons_append, moreItems, hmore, hv]
    show (moreItems (item bound depth) n (c :: more)).map _ = _
    rw [← hmore, hitems]
    rfl

/-- No value starts with a closing bracket. -/
theorem value_bracket (depth : Nat) (cs : List Char) :
    value bound depth (']' :: cs) = .error Defect.malformed := by
  have hdigits : ∀ n, exactDigits? (n + 1) (']' :: cs) = none := fun n => by
    simp [exactDigits?]
  have hmoment : moment? (']' :: cs) = none := by
    simp [moment?, date?, time?, minutes?, hdigits]
  have hscalar : scalar? (']' :: cs) = none := by
    show (moment? (']' :: cs)).orElse _ = none
    rw [hmoment]
    rfl
  cases depth <;>
  · show require (scalar? (']' :: cs)) = _
    rw [hscalar]
    rfl

/-- An array ends where its items do. -/
theorem list_of_separated {depth : Nat} {cs : List Char} {items : List (Located Value)}
    (h : separated (item bound depth) bound cs = .ok (items, ']' :: rest)) :
    value bound (depth + 1) ('[' :: cs) = .ok (.list items, rest) := by
  have hlast : skipEmptyLines (']' :: rest) = ']' :: rest := skipEmptyLines_mark (.inr (.inr rfl)) _
  show list (value bound depth) bound cs = _
  unfold list
  change (separated (item bound depth) bound cs >>= _) = _
  rw [h]
  cases items <;> simp [Bind.bind, Except.bind, hlast]

/-- A list of texts is read back. -/
theorem value_list (depth : Nat) (ss : List String) (hcount : ss.length ≤ bound) :
    ∃ v, value bound (depth + 1) ((Written.list ss).render ++ rest) = .ok (v, rest) ∧
      (Written.list ss).IsValue v := by
  cases ss with
  | nil =>
    have hnone : item bound depth (']' :: rest) = .error Defect.malformed := by
      rw [item, skipEmptyLines_mark (.inr (.inr rfl)), placed, value_bracket]
      rfl
    have hread : separated (item bound depth) bound (']' :: rest) = .ok ([], ']' :: rest) := by
      rw [separated, hnone]
    exact ⟨.list [], list_of_separated bound hread, [], rfl, rfl⟩
  | cons s ss =>
    obtain ⟨items, hitems, hvalues⟩ :=
      moreItems_quotes bound depth (Nat.le_of_succ_le hcount) rest
    obtain ⟨c, more, hmore, hc⟩ := moreQuotes_head ss rest
    obtain ⟨v, hv, hvalue⟩ := item_quote bound depth s hc more
    have hread : separated (item bound depth) bound (quote s ++ c :: more) =
        .ok (v :: items, ']' :: rest) := by
      rw [separated, hv]
      show (moreItems (item bound depth) bound (c :: more)).map _ = _
      rw [← hmore, hitems]
      rfl
    refine ⟨.list (v :: items), ?_, _, rfl, by rw [List.map_cons, List.map_cons, hvalue, hvalues]⟩
    rw [Written.render, Json.listed, List.cons_append, List.append_assoc, List.append_assoc,
      List.singleton_append, hmore]
    exact list_of_separated bound hread

/-- A value is read back. -/
theorem value_render (w : Written) (depth : Nat) (hbound : w.render.length ≤ bound)
    (hrest : ∀ c ∈ rest.head?, c ≠ '"') :
    ∃ v, value bound (depth + 1) (w.render ++ rest) = .ok (v, rest) ∧ w.IsValue v := by
  cases w with
  | text s => exact ⟨.text s, value_text bound (depth + 1) s hrest, rfl⟩
  | list ss =>
    have hcount := Json.length_le_listed quote ']' ss
    rw [Written.render, List.length_cons] at hbound
    exact value_list bound depth ss (by omega)

end

/-! ## Lines -/

/-- A name that stands in a document without quotes. -/
def IsBare (name : String) : Prop := name.toList ≠ [] ∧ ∀ c ∈ name.toList, isKeyChar c

/-- How a name without quotes starts: with no character that makes something else of a line. -/
theorem IsBare.head {name : String} (h : IsBare name) :
    ∃ c more, name.toList = c :: more ∧ isBlank c = false ∧
      c ∉ ['"', '\'', '#', '\n', '\r', '[', '\uFEFF'] := by
  obtain ⟨c, more, hc⟩ := List.exists_cons_of_ne_nil h.1
  have hkey : isKeyChar c := h.2 c (hc ▸ List.mem_cons_self)
  have hne : ∀ d : Char, isKeyChar d = false → c ≠ d := by
    rintro d hd rfl
    simp [hd] at hkey
  refine ⟨c, more, hc, ?_, ?_⟩
  · simp [isBlank, hne ' ' rfl, hne '\t' rfl]
  · simp [hne '"' rfl, hne '\'' rfl, hne '#' rfl, hne '\n' rfl, hne '\r' rfl, hne '[' rfl,
      hne '\uFEFF' rfl]

theorem keyPart?_bare {name : String} (h : IsBare name) (cs : List Char) :
    keyPart? (name.toList ++ ' ' :: cs) = some (name, ' ' :: cs) := by
  have htake : (name.toList ++ ' ' :: cs).takeWhile isKeyChar = name.toList := by
    rw [List.takeWhile_append_of_pos h.2, List.takeWhile_cons_of_neg (by decide), List.append_nil]
  have hdrop : (name.toList ++ ' ' :: cs).dropWhile isKeyChar = ' ' :: cs := by
    rw [List.dropWhile_append_of_pos h.2, List.dropWhile_cons_of_neg (by decide)]
  obtain ⟨c, more, hc, -, hmarks⟩ := h.head
  unfold keyPart?
  split
  · next heq =>
    rw [hc] at heq
    simp [(List.cons.inj heq).1] at hmarks
  · next heq =>
    rw [hc] at heq
    simp [(List.cons.inj heq).1] at hmarks
  · rw [htake, hdrop, if_neg h.1, String.ofList_toList]

/-- A name without quotes is a key without dots. -/
theorem dottedKey_bare {name : String} (h : IsBare name) (tooLong : Defect) (cs : List Char) :
    ∃ key : Key, dottedKey tooLong (name.toList ++ ' ' :: '=' :: cs) = .ok (([], key), '=' :: cs) ∧
      key.value = name := by
  obtain ⟨c, more, hc, hblank, -⟩ := h.head
  have hskip : skipBlanks (name.toList ++ ' ' :: '=' :: cs) = name.toList ++ ' ' :: '=' :: cs := by
    rw [hc]
    exact List.dropWhile_cons_of_neg (by simp [hblank])
  refine ⟨⟨⟨name.toList ++ ' ' :: '=' :: cs, ' ' :: '=' :: cs⟩, name⟩, ?_, rfl⟩
  unfold dottedKey
  rw [hskip, located, keyPart?_bare h]
  rfl

/-- A new key is stored at the end of the document. -/
theorem store?_top {d : Draft} {key : Key} (h : key.value ∉ d.current.value.names)
    (v : Located Value) :
    ∃ span, d.store? [] key v =
      some { d with current := ⟨span, d.current.value ++ [(key, v)]⟩ } := by
  have hnone : d.current.value.find? key.value = none := Entries.find?_eq_none_iff.mpr h
  refine ⟨d.current.span.through v.span, ?_⟩
  rw [Draft.store?, Entries.insertDotted, Entries.descend, if_neg (by simp), hnone]
  rfl

theorem skipBlanks_render (w : Written) (cs : List Char) :
    skipBlanks (' ' :: (w.render ++ cs)) = w.render ++ cs := by
  cases w <;> rfl

/-- A line that starts with a name is a key and its value. -/
theorem line_bare {name : String} (h : IsBare name) (bound : Nat) (d : Draft) (cs : List Char) :
    line bound d (name.toList ++ cs) = entryLine bound d (name.toList ++ cs) := by
  obtain ⟨c, more, hc, -, hmarks⟩ := h.head
  rw [hc, List.cons_append]
  unfold line
  split
  · next heq => simp [(List.cons.inj heq).1] at hmarks
  · next heq => simp [(List.cons.inj heq).1] at hmarks
  · next heq => simp [(List.cons.inj heq).1] at hmarks
  · next heq => simp [(List.cons.inj heq).1] at hmarks
  · next heq => simp [(List.cons.inj heq).1] at hmarks
  · rfl

/-- A written line is read as its key and its value. -/
theorem line_entry {bound : Nat} {d : Draft} {name : String} (hbare : IsBare name)
    (hnew : name ∉ d.current.value.names) {w : Written} (hbound : w.render.length ≤ bound)
    (cs : List Char) :
    ∃ (key : Key) (v : Located Value) (span : Span), line bound d (entry (name, w) ++ cs) =
      .ok ({ d with current := ⟨span, d.current.value ++ [(key, v)]⟩ }, cs) ∧
        key.value = name ∧ w.IsValue v.value := by
  have hquote : ∀ c ∈ ('\n' :: cs).head?, c ≠ '"' := by
    rintro c ⟨⟩
    decide
  obtain ⟨v, hv, hvalue⟩ := value_render bound w 78 hbound hquote
  let located : Located Value := ⟨⟨w.render ++ '\n' :: cs, '\n' :: cs⟩, v⟩
  let after := ' ' :: (w.render ++ '\n' :: cs)
  have hplaced : placed (value bound (nestingLimit - 1)) (skipBlanks after) =
      .ok (located, '\n' :: cs) := by
    rw [skipBlanks_render, placed]
    show (value bound (78 + 1) (w.render ++ '\n' :: cs)).map _ = _
    rw [hv]
    rfl
  have hentry : entry (name, w) ++ cs = name.toList ++ ' ' :: '=' :: after := by
    simp [entry, after]
  obtain ⟨key, hkey, hname⟩ :=
    dottedKey_bare hbare (.tooDeep (.first (name.toList ++ ' ' :: '=' :: after))) after
  obtain ⟨span, hstore⟩ := store?_top (hname ▸ hnew : key.value ∉ d.current.value.names) located
  refine ⟨key, located, span, ?_, hname, hvalue⟩
  rw [hentry, line_bare hbare, entryLine, hkey]
  show (placed (value bound (nestingLimit - 1)) (skipBlanks after) >>= _) = _
  rw [hplaced]
  show require ((d.store? [] key located).bind _) = _
  rw [hstore]
  rfl

theorem entry_head {name : String} (h : IsBare name) (w : Written) (cs : List Char) :
    ∃ c more, entry (name, w) ++ cs = c :: more ∧ isBlank c = false := by
  obtain ⟨c, more, hc, hblank, -⟩ := h.head
  exact ⟨c, _, by rw [entry, hc, List.cons_append, List.cons_append], hblank⟩

/-- A line that has been read leaves the ones behind it. -/
theorem lines_succ {bound more : Nat} {d d' : Draft} {c : Char} {cs rest : List Char}
    (hblank : isBlank c = false) (h : line bound d (c :: cs) = .ok (d', rest)) :
    lines bound (more + 1) d (c :: cs) = lines bound more d' rest := by
  have hskip : skipBlanks (c :: cs) = c :: cs :=
    List.dropWhile_cons_of_neg (by simp [hblank])
  rw [lines, hskip]
  show (line bound d (c :: cs) >>= _) = _
  rw [h]
  rfl

/-- Written lines are read up to the end of the document. -/
theorem lines_document {ws : List (String × Written)} (hbare : ∀ w ∈ ws, IsBare w.1)
    (hdistinct : (ws.map (·.1)).Nodup) {bound more : Nat}
    (hbound : (document ws).length ≤ bound) (hmore : ws.length < more) {d : Draft}
    (htop : d.opened = .top) (hnew : ∀ w ∈ ws, w.1 ∉ d.current.value.names) :
    ∃ es : Entries, lines bound more d (document ws) = .ok (d.current.value ++ es) ∧
      List.Forall₂ (fun e w => e.1.value = w.1 ∧ w.2.IsValue e.2.value) es ws := by
  obtain ⟨more, rfl⟩ : ∃ n, more = n + 1 := Nat.exists_eq_succ_of_ne_zero (Nat.ne_zero_of_lt hmore)
  induction ws generalizing d more with
  | nil =>
    refine ⟨[], ?_, .nil⟩
    show require d.close? = _
    rw [Draft.close?, htop, List.append_nil]
    rfl
  | cons first ws ih =>
    obtain ⟨name, w⟩ := first
    obtain ⟨hfirst, hbare⟩ := List.forall_mem_cons.mp hbare
    obtain ⟨hnewFirst, hnew⟩ := List.forall_mem_cons.mp hnew
    obtain ⟨hnotin, hdistinct⟩ := List.nodup_cons.mp hdistinct
    have hlength : (document ((name, w) :: ws)).length =
        name.toList.length + w.render.length + 4 + (document ws).length := by
      simp [document, entry]
      omega
    obtain ⟨key, v, span, hline, hname, hvalue⟩ :=
      line_entry hfirst hnewFirst (by omega : w.render.length ≤ bound) (document ws)
    have hnames : ∀ e ∈ ws, e.1 ∉ Entries.names (d.current.value ++ [(key, v)]) := by
      intro e he hmem
      rw [Entries.names_append, List.mem_append, List.mem_singleton] at hmem
      rcases hmem with hold | hkey
      · exact hnew e he hold
      · exact hnotin (List.mem_map.mpr ⟨e, he, hkey.trans hname⟩)
    obtain ⟨m, rfl⟩ : ∃ m, more = m + 1 := Nat.exists_eq_succ_of_ne_zero (by
      rw [List.length_cons] at hmore
      omega)
    obtain ⟨es, hes, hall⟩ := ih hbare hdistinct (by omega)
      (d := { d with current := ⟨span, d.current.value ++ [(key, v)]⟩ }) htop hnames m
      (Nat.lt_of_succ_lt_succ hmore)
    refine ⟨(key, v) :: es, ?_, .cons ⟨hname, hvalue⟩ hall⟩
    obtain ⟨c, cs, hstart, hblank⟩ := entry_head hfirst w (document ws)
    rw [hstart] at hline
    show lines bound (m + 1 + 1) d (entry (name, w) ++ document ws) = _
    rw [hstart, lines_succ hblank hline, hes, List.append_assoc]
    rfl

/-- **Written documents.** Names that are distinct and need no quotes can be given any texts and
lists of texts. -/
theorem parse_document {ws : List (String × Written)} (hbare : ∀ w ∈ ws, IsBare w.1)
    (hdistinct : (ws.map (·.1)).Nodup) :
    ∃ es : Entries, parse (String.ofList (document ws)) = .ok es ∧
      List.Forall₂ (fun e w => e.1.value = w.1 ∧ w.2.IsValue e.2.value) es ws := by
  have hmark : ∀ cs, document ws ≠ '\uFEFF' :: cs := by
    intro cs h
    cases ws with
    | nil => cases h
    | cons first ws =>
      obtain ⟨c, more, hc, -, hmarks⟩ := (List.forall_mem_cons.mp hbare).1.head
      rw [document, List.flatMap_cons, entry, hc] at h
      simp [(List.cons.inj h).1] at hmarks
  have hcount : ws.length ≤ (document ws).length :=
    Json.length_le_length_flatMap fun e _ => by simp [entry]
  have hnew : ∀ w ∈ ws, w.1 ∉ (Draft.empty (document ws)).current.value.names := fun _ _ => nofun
  obtain ⟨es, hes, hall⟩ :=
    lines_document hbare hdistinct (Nat.le_refl _) (Nat.lt_succ_of_le hcount) rfl hnew
  refine ⟨es, ?_, hall⟩
  unfold parse
  rw [String.toList_ofList]
  split
  · next cs h => exact absurd h (hmark cs)
  · exact hes

end BenchRatio.Toml
