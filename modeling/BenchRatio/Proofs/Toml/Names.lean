import BenchRatio.Toml.Document
import Mathlib.Data.List.Nodup

/-!
# Names in a document

No name stands twice in a document, so a key has at most one value. Every change that a line makes
keeps this: a key is stored, a table opened or an element added only where the name is new or its
value is replaced.

* `Entries.Distinct`: no name stands twice.
* `distinct_descend`: what is done in a table further down adds at most a new name.
* `Draft.Distinct`: what holds of a document of which some lines have been read.
* `parse_distinct`: **no name stands twice in a document**.
-/

namespace BenchRatio.Toml

/-! ## Results -/

theorem bind_eq_ok {ε α β : Type} {x : Except ε α} {f : α → Except ε β} {b : β}
    (h : x >>= f = .ok b) : ∃ a, x = .ok a ∧ f a = .ok b := by
  cases x with
  | error e => cases h
  | ok a => exact ⟨a, rfl, h⟩

theorem map_eq_ok {ε α β : Type} {x : Except ε α} {f : α → β} {b : β} (h : x.map f = .ok b) :
    ∃ a, x = .ok a ∧ f a = b := by
  cases x with
  | error e => cases h
  | ok a => exact ⟨a, rfl, Except.ok.inj h⟩

theorem require_eq_ok {α : Type} {x : Option α} {a : α} (h : require x = .ok a) : x = some a := by
  cases x with
  | none => cases h
  | some b =>
    cases h
    rfl

/-- What has been made, where it is required together with what follows it. -/
theorem require_pair_eq_ok {α β : Type} {x : Option α} {y : Option β} {a : α} {b : β}
    (h : (require do some (← x, ← y)) = .ok (a, b)) : x = some a := by
  obtain ⟨a', hx, h⟩ := Option.bind_eq_some_iff.mp (require_eq_ok h)
  obtain ⟨b', -, h⟩ := Option.bind_eq_some_iff.mp h
  cases h
  exact hx

/-! ## Entries -/

namespace Entries

/-- The names of entries. -/
def names (es : Entries) : List String := es.map (·.1.value)

/-- No name stands twice. -/
def Distinct (es : Entries) : Prop := es.names.Nodup

theorem find?_eq_none_iff {es : Entries} {name : String} :
    es.find? name = none ↔ name ∉ es.names := by
  simp [find?, names, Option.map_eq_none_iff, List.find?_eq_none]

theorem names_append (es : Entries) (key : Key) (v : Located Value) :
    names (es ++ [(key, v)]) = es.names ++ [key.value] := by
  simp [names]

theorem names_replace (es : Entries) (name : String) (v : Located Value) :
    (replace es name v).names = es.names := by
  rw [names, names, replace, List.map_map]
  refine List.map_congr_left fun e _ => ?_
  show (if e.1.value = name then (e.1, v) else e).1.value = e.1.value
  split <;> rfl

theorem Distinct.append {es : Entries} (h : es.Distinct) {key : Key} (hkey : key.value ∉ es.names)
    (v : Located Value) : Distinct (es ++ [(key, v)]) := by
  rw [Distinct, names_append]
  exact List.nodup_append.mpr ⟨h, List.nodup_singleton _, by
    rintro a ha b hb rfl
    exact hkey (List.mem_singleton.mp hb ▸ ha)⟩

theorem Distinct.replace {es : Entries} (h : es.Distinct) (name : String) (v : Located Value) :
    (replace es name v).Distinct := by
  rw [Distinct, names_replace]
  exact h

variable {α : Type} {dotted : Bool} {finish : Origin → Entries → Option (α × Entries)}
  {origin : Origin} {es es' : Entries} {a : α}

/-- Something done in a table further down leaves the names or adds a new one. -/
theorem distinct_descend (hes : es.Distinct) {key : Key} {more : List Key}
    (h : descend dotted finish origin (key :: more) es = some (a, es')) : es'.Distinct := by
  rw [descend] at h
  split at h
  · next hnone =>
    obtain ⟨⟨b, sub⟩, -, hsub⟩ := Option.bind_eq_some_iff.mp h
    cases hsub
    exact hes.append (find?_eq_none_iff.mp hnone) _
  · split at h
    · cases h
    · obtain ⟨⟨b, sub⟩, -, hsub⟩ := Option.bind_eq_some_iff.mp h
      cases hsub
      exact hes.replace _ _
  · obtain ⟨⟨b, sub⟩, -, hsub⟩ := Option.bind_eq_some_iff.mp h
    cases hsub
    exact hes.replace _ _
  · cases h

theorem distinct_insertDotted (hes : es.Distinct) {path : List Key} {key : Key} {v : Located Value}
    (h : es.insertDotted path key v = some es') : es'.Distinct := by
  obtain ⟨⟨a, sub⟩, hdescend, rfl⟩ := Option.map_eq_some_iff.mp h
  cases path with
  | nil =>
    rw [descend, if_neg (by simp)] at hdescend
    split at hdescend
    · cases hdescend
    · next hfind =>
      cases hdescend
      exact hes.append (find?_eq_none_iff.mp (by simpa using hfind)) v
  | cons first more => exact distinct_descend hes hdescend

/-- The name of a table that has been opened is not among those that stay. -/
theorem distinct_openTable (hes : es.Distinct) {path : List Key} {key : Key} {taken : Entries}
    (h : es.openTable path key = some (taken, es')) :
    es'.Distinct ∧ (path = [] → key.value ∉ es'.names) := by
  cases path with
  | nil =>
    rw [openTable, descend] at h
    split at h
    · next hnone =>
      cases h
      exact ⟨hes, fun _ => find?_eq_none_iff.mp hnone⟩
    · cases h
      refine ⟨hes.sublist (List.filter_sublist.map _), fun _ hmem => ?_⟩
      obtain ⟨e, he, hname⟩ := List.mem_map.mp hmem
      exact of_decide_eq_true (List.mem_filter.mp he).2 hname
    · cases h
  | cons first more => exact ⟨distinct_descend hes h, nofun⟩

theorem distinct_closeTable (hes : es.Distinct) {path : List Key} {key : Key}
    {table : Located Entries} (hkey : path = [] → key.value ∉ es.names)
    (h : es.closeTable path key table = some es') : es'.Distinct := by
  obtain ⟨⟨a, sub⟩, hdescend, rfl⟩ := Option.map_eq_some_iff.mp h
  cases path with
  | nil =>
    cases hdescend
    exact hes.append (hkey rfl) _
  | cons first more => exact distinct_descend hes hdescend

theorem distinct_addElement (hes : es.Distinct) {path : List Key} {key : Key}
    {table : Located Entries} (h : es.addElement path key table = some es') : es'.Distinct := by
  obtain ⟨⟨a, sub⟩, hdescend, rfl⟩ := Option.map_eq_some_iff.mp h
  cases path with
  | nil =>
    rw [descend] at hdescend
    split at hdescend
    · next hnone =>
      cases hdescend
      exact hes.append (find?_eq_none_iff.mp hnone) _
    · cases hdescend
      exact hes.replace _ _
    · cases hdescend
  | cons first more => exact distinct_descend hes hdescend

end Entries

/-! ## Lines -/

/-- No name stands twice in the closed tables or, while the document itself is open, in it, and the
name of a table that is open is not among the closed ones. -/
structure Draft.Distinct (d : Draft) : Prop where
  closed : d.closed.Distinct
  top : d.opened = .top → d.current.value.Distinct
  opened : ∀ path key, d.opened = .table path key → path = [] → key.value ∉ d.closed.names

namespace Draft

variable {d d' : Draft}

theorem distinct_empty (document : List Char) : (empty document).Distinct :=
  ⟨List.nodup_nil, fun _ => List.nodup_nil, nofun⟩

theorem distinct_close? (hd : d.Distinct) {es : Entries} (h : d.close? = some es) :
    es.Distinct := by
  unfold close? at h
  split at h
  · next hopened =>
    cases h
    exact hd.top hopened
  · next path key hopened => exact Entries.distinct_closeTable hd.closed (hd.opened _ _ hopened) h
  · exact Entries.distinct_addElement hd.closed h

theorem distinct_store? (hd : d.Distinct) {path : List Key} {key : Key} {v : Located Value}
    (h : d.store? path key v = some d') : d'.Distinct := by
  obtain ⟨es, hes, rfl⟩ := Option.map_eq_some_iff.mp h
  exact ⟨hd.closed, fun htop => Entries.distinct_insertDotted (hd.top htop) hes, hd.opened⟩

theorem distinct_openTable? (hd : d.Distinct) {header : Span} {path : List Key} {key : Key}
    (h : d.openTable? header path key = some d') : d'.Distinct := by
  obtain ⟨closed, hclosed, h⟩ := Option.bind_eq_some_iff.mp h
  obtain ⟨⟨taken, rest⟩, hopen, h⟩ := Option.bind_eq_some_iff.mp h
  cases h
  obtain ⟨hrest, hkey⟩ := Entries.distinct_openTable (distinct_close? hd hclosed) hopen
  refine ⟨hrest, nofun, ?_⟩
  rintro _ _ ⟨⟩
  exact hkey

theorem distinct_openElement? (hd : d.Distinct) {header : Span} {path : List Key} {key : Key}
    (h : d.openElement? header path key = some d') : d'.Distinct := by
  obtain ⟨closed, hclosed, h⟩ := Option.bind_eq_some_iff.mp h
  cases h
  exact ⟨distinct_close? hd hclosed, nofun, nofun⟩

end Draft

variable {d d' : Draft} {cs rest : List Char}

theorem distinct_entryLine (hd : d.Distinct) {bound : Nat}
    (h : entryLine bound d cs = .ok (d', rest)) : d'.Distinct := by
  obtain ⟨⟨⟨path, key⟩, after⟩, -, h⟩ := bind_eq_ok h
  dsimp only at h
  split at h
  · obtain ⟨⟨v, end'⟩, -, h⟩ := bind_eq_ok h
    exact Draft.distinct_store? hd (require_pair_eq_ok h)
  · cases h

theorem distinct_tableHeader (hd : d.Distinct) (h : tableHeader d cs = .ok (d', rest)) :
    d'.Distinct := by
  obtain ⟨⟨⟨path, key⟩, after⟩, -, h⟩ := bind_eq_ok h
  exact Draft.distinct_openTable? hd (require_pair_eq_ok h)

theorem distinct_elementHeader (hd : d.Distinct) (h : elementHeader d cs = .ok (d', rest)) :
    d'.Distinct := by
  obtain ⟨⟨⟨path, key⟩, after⟩, -, h⟩ := bind_eq_ok h
  exact Draft.distinct_openElement? hd (require_pair_eq_ok h)

/-- A line keeps names apart. -/
theorem distinct_line (hd : d.Distinct) {bound : Nat} (h : line bound d cs = .ok (d', rest)) :
    d'.Distinct := by
  unfold line at h
  split at h
  · obtain ⟨end', -, hend⟩ := Option.map_eq_some_iff.mp (require_eq_ok h)
    cases hend
    exact hd
  · cases h
    exact hd
  · obtain ⟨end', -, hend⟩ := Option.map_eq_some_iff.mp (require_eq_ok h)
    cases hend
    exact hd
  · exact distinct_elementHeader hd h
  · exact distinct_tableHeader hd h
  · exact distinct_entryLine hd h

/-- Lines up to the end of a document keep names apart. -/
theorem distinct_lines {bound more : Nat} (hd : d.Distinct) {es : Entries}
    (h : lines bound more d cs = .ok es) : es.Distinct := by
  induction more generalizing d cs with
  | zero => cases h
  | succ more ih =>
    rw [lines] at h
    split at h
    · exact Draft.distinct_close? hd (require_eq_ok h)
    · obtain ⟨⟨d', rest⟩, hline, hmore⟩ := bind_eq_ok h
      exact ih (distinct_line hd hline) hmore

/-- **Distinct names.** No name stands twice in a document. -/
theorem parse_distinct {s : String} {es : Entries} (h : parse s = .ok es) : es.Distinct :=
  distinct_lines (Draft.distinct_empty _) h

end BenchRatio.Toml
