import BenchRatio.Command
import BenchRatio.Proofs.Store
import BenchRatio.Proofs.Toml.Written

/-!
# Two ways to make settings

A value can be given by a flag or by its key in a roster file. A flag wins over a key, and a name in
a flag is taken without the blanks around it, while one in a file is taken as it is. So a flag says
what a key with the trimmed name says, and each of both changes nothing else.

* `Roster.Settings`: values for some of a roster's keys.
* `Roster.Settings.ofEntries`, `Arguments.flags`: what a file and what flags give.
* `Roster.load_eq`: a roster file gives its settings over the standard roster.
* `exists_document`: every choice of values can be given in a file.
* `roster_flags_or_keys`: **flags and keys say the same but for the blanks around names**.
-/

namespace BenchRatio

namespace Roster

/-- The keys of a roster. -/
inductive Key
  | resultsDir
  | outputDir
  | baseline
  | techniques
  | categories
  deriving DecidableEq

/-- Values for some of a roster's keys. -/
structure Settings where
  resultsDir : Option Path := none
  outputDir : Option Path := none
  baseline : Option String := none
  techniques : Option (List String) := none
  categories : Option (List String) := none
  deriving DecidableEq

namespace Settings

/-- A roster with settings in the place of its own values. -/
def onto (v : Settings) (r : Roster) : Roster where
  resultsDir := v.resultsDir.getD r.resultsDir
  outputDir := v.outputDir.getD r.outputDir
  baseline := v.baseline.getD r.baseline
  techniques := v.techniques.getD r.techniques
  categories := v.categories.getD r.categories

/-- Settings, and others for the keys that they leave out. -/
def orElse (v w : Settings) : Settings where
  resultsDir := v.resultsDir <|> w.resultsDir
  outputDir := v.outputDir <|> w.outputDir
  baseline := v.baseline <|> w.baseline
  techniques := v.techniques <|> w.techniques
  categories := v.categories <|> w.categories

/-- Settings without the blanks around names. -/
def trimmed (v : Settings) : Settings where
  resultsDir := v.resultsDir
  outputDir := v.outputDir
  baseline := v.baseline.map Blank.trim
  techniques := v.techniques.map (·.map Blank.trim)
  categories := v.categories.map (·.map Blank.trim)

/-- The settings of some keys. -/
def only (keys : Key → Bool) (v : Settings) : Settings where
  resultsDir := if keys .resultsDir then v.resultsDir else none
  outputDir := if keys .outputDir then v.outputDir else none
  baseline := if keys .baseline then v.baseline else none
  techniques := if keys .techniques then v.techniques else none
  categories := if keys .categories then v.categories else none

/-- What a key has in a document, as far as it can be read. -/
def at? {α : Type} (read : Toml.Located Toml.Value → Except Misfit α) (es : Toml.Entries)
    (name : String) : Option α :=
  (es.find? name).bind fun v => (read v).toOption

/-- What a document gives. -/
def ofEntries (es : Toml.Entries) : Settings where
  resultsDir := (at? (textOf .path) es "results_dir").map Path.mk
  outputDir := (at? (textOf .path) es "output_dir").map Path.mk
  baseline := at? (textOf .text) es "baseline"
  techniques := at? textsOf es "techniques"
  categories := at? textsOf es "categories"

/-! ## Over one another -/

theorem onto_onto (v w : Settings) (r : Roster) : v.onto (w.onto r) = (v.orElse w).onto r := by
  obtain ⟨a, b, c, d, e⟩ := v
  cases a <;> cases b <;> cases c <;> cases d <;> cases e <;> rfl

end Settings

end Roster

namespace Arguments

open Roster

/-- What flags give. A list that is empty has not been given. -/
def flags (a : Arguments) : Settings where
  resultsDir := a.resultsDir
  outputDir := a.outputDir
  baseline := a.baseline
  techniques := if a.techniques = [] then none else some a.techniques
  categories := if a.categories = [] then none else some a.categories

/-- Arguments without the flags for some keys. -/
def without (keys : Key → Bool) (a : Arguments) : Arguments :=
  { a with
    resultsDir := if keys .resultsDir then none else a.resultsDir
    outputDir := if keys .outputDir then none else a.outputDir
    baseline := if keys .baseline then none else a.baseline
    techniques := if keys .techniques then [] else a.techniques
    categories := if keys .categories then [] else a.categories }

/-- Flags put their trimmed values over a roster. -/
theorem override_eq (r : Roster) (a : Arguments) :
    Command.override r a = a.flags.trimmed.onto r := by
  unfold Command.override Settings.onto Settings.trimmed flags
  congr 1
  · by_cases h : a.techniques = [] <;> simp [h]
  · by_cases h : a.categories = [] <;> simp [h]

/-- Flags are those for some keys and the others. -/
theorem flags_without (keys : Key → Bool) (a : Arguments) (v : Settings) :
    (a.without keys).flags.trimmed.orElse ((a.flags.only keys).trimmed.orElse v) =
      a.flags.trimmed.orElse v := by
  unfold Settings.orElse Settings.trimmed Settings.only flags without
  congr 1
  · by_cases h : keys .resultsDir <;> simp [h]
  · by_cases h : keys .outputDir <;> simp [h]
  · by_cases h : keys .baseline <;> simp [h]
  · by_cases h : keys .techniques <;> simp [h]
  · by_cases h : keys .categories <;> simp [h]

end Arguments

namespace Roster

/-! ## What a file gives -/

namespace Settings

section

variable {α : Type} (read : Toml.Located Toml.Value → Except Misfit α) {name : String}

theorem at?_cons (e : Toml.Key × Toml.Located Toml.Value) (es : Toml.Entries) :
    at? read (e :: es) name =
      if e.1.value = name then (read e.2).toOption else at? read es name := by
  unfold at? Toml.Entries.find?
  by_cases h : e.1.value = name
  · rw [if_pos h, List.find?_cons_of_pos (by simp [h])]
    rfl
  · rw [if_neg h, List.find?_cons_of_neg (by simp [h])]

theorem at?_of_new {es : Toml.Entries} (h : name ∉ es.names) : at? read es name = none := by
  rw [at?, Toml.Entries.find?_eq_none_iff.mpr h]
  rfl

end

/-- An entry gives its key the value that is read, and nothing else changes. -/
theorem onto_withEntry {e : Toml.Key × Toml.Located Toml.Value} {es : Toml.Entries} {r r' : Roster}
    (hnew : e.1.value ∉ es.names) (h : r.withEntry e.1 e.2 = .ok r') :
    (ofEntries es).onto r' = (ofEntries (e :: es)).onto r := by
  unfold withEntry at h
  split at h
  case h_6 => cases h
  all_goals
    next hkey =>
    obtain ⟨s, hs, rfl⟩ := Toml.map_eq_ok h
    rw [hkey] at hnew
    simp [onto, ofEntries, at?_cons, at?_of_new _ hnew, hkey, hs, Except.toOption]

/-- The entries of a document, read one after the other, give its settings. -/
theorem onto_foldlM {es : Toml.Entries} (hes : es.Distinct) {r r' : Roster}
    (h : es.foldlM (fun r e => r.withEntry e.1 e.2) r = .ok r') : r' = (ofEntries es).onto r := by
  induction es generalizing r with
  | nil =>
    cases h
    rfl
  | cons e es ih =>
    obtain ⟨hnew, hdistinct⟩ := List.nodup_cons.mp hes
    rw [List.foldlM_cons] at h
    obtain ⟨r₁, hentry, hmore⟩ := Toml.bind_eq_ok h
    rw [ih hdistinct hmore, onto_withEntry hnew hentry]

/-! ## What can be given in a file -/

/-- A key with a value of the right kind, and what it gives. -/
inductive Gives : String × Toml.Written → Settings → Prop
  | resultsDir (p : Path) : Gives ("results_dir", .text p.text) { resultsDir := some p }
  | outputDir (p : Path) : Gives ("output_dir", .text p.text) { outputDir := some p }
  | baseline (s : String) : Gives ("baseline", .text s) { baseline := some s }
  | techniques (ss : List String) : Gives ("techniques", .list ss) { techniques := some ss }
  | categories (ss : List String) : Gives ("categories", .list ss) { categories := some ss }

theorem textOf_text {wanted : Wanted} {s : String} {v : Toml.Located Toml.Value}
    (h : (Toml.Written.text s).IsValue v.value) : textOf wanted v = .ok s := by
  have hvalue : v.value = .text s := h
  rw [textOf, hvalue]

theorem textsOf_list {ss : List String} {v : Toml.Located Toml.Value}
    (h : (Toml.Written.list ss).IsValue v.value) : textsOf v = .ok ss := by
  obtain ⟨items, hvalue, hitems⟩ := h
  rw [textsOf, hvalue]
  show items.mapM (textOf .text) = .ok ss
  clear hvalue
  induction ss generalizing items with
  | nil =>
    rw [List.map_nil, List.map_eq_nil_iff] at hitems
    rw [hitems]
    rfl
  | cons s ss ih =>
    obtain ⟨item, more, rfl, hitem, hmore⟩ := List.map_eq_cons_iff.mp hitems
    rw [List.mapM_cons, textOf_text hitem, ih more hmore]
    rfl

/-- An entry that has been read gives what was written. -/
theorem ofEntries_cons {e : Toml.Key × Toml.Located Toml.Value} {w : String × Toml.Written}
    {v : Settings} (hgives : Gives w v) (hname : e.1.value = w.1) (hvalue : w.2.IsValue e.2.value)
    (es : Toml.Entries) :
    ofEntries (e :: es) = v.orElse (ofEntries es) ∧
      ∀ r : Roster, ∃ r', r.withEntry e.1 e.2 = .ok r' := by
  cases hgives
  case resultsDir s | outputDir s | baseline s =>
    constructor
    · simp [ofEntries, orElse, at?_cons, hname, textOf_text hvalue, Except.toOption]
    · intro r
      simp [withEntry, hname, textOf_text hvalue, Except.map]
  case techniques ss | categories ss =>
    constructor
    · simp [ofEntries, orElse, at?_cons, hname, textsOf_list hvalue, Except.toOption]
    · intro r
      simp [withEntry, hname, textsOf_list hvalue, Except.map]

/-- Keys with values of the right kind, each giving what stands beside it. -/
def written (v : Settings) : List ((String × Toml.Written) × Settings) :=
  (v.resultsDir.map fun p => (("results_dir", .text p.text), { resultsDir := some p })).toList ++
    (v.outputDir.map fun p => (("output_dir", .text p.text), { outputDir := some p })).toList ++
    (v.baseline.map fun s => (("baseline", .text s), { baseline := some s })).toList ++
    (v.techniques.map fun ss => (("techniques", .list ss), { techniques := some ss })).toList ++
    (v.categories.map fun ss => (("categories", .list ss), { categories := some ss })).toList

theorem gives_written (v : Settings) : ∀ g ∈ v.written, Gives g.1 g.2 := by
  intro g hg
  simp only [written, List.mem_append, Option.mem_toList, Option.map_eq_some_iff] at hg
  rcases hg with (((⟨p, -, rfl⟩ | ⟨p, -, rfl⟩) | ⟨s, -, rfl⟩) | ⟨ss, -, rfl⟩) | ⟨ss, -, rfl⟩
  · exact .resultsDir p
  · exact .outputDir p
  · exact .baseline s
  · exact .techniques ss
  · exact .categories ss

/-- All keys together give the settings. -/
theorem foldr_written (v : Settings) : v.written.foldr (fun g w => g.2.orElse w) {} = v := by
  obtain ⟨a, b, c, d, e⟩ := v
  cases a <;> cases b <;> cases c <;> cases d <;> cases e <;> rfl

theorem isBare_of_gives {w : String × Toml.Written} {v : Settings} (h : Gives w v) :
    Toml.IsBare w.1 := by
  cases h <;>
  · dsimp only
    exact ⟨by decide, List.all_eq_true.mp (by decide)⟩

theorem nodup_written (v : Settings) : (v.written.map (·.1.1)).Nodup := by
  have hall : ["results_dir", "output_dir", "baseline", "techniques", "categories"].Nodup := by
    decide
  refine hall.sublist ?_
  obtain ⟨a, b, c, d, e⟩ := v
  cases a <;> cases b <;> cases c <;> cases d <;> cases e <;>
    exact List.isSublist_iff_sublist.mp rfl

/-- Entries that are read one after the other give what was written. -/
theorem ofEntries_written {gs : List ((String × Toml.Written) × Settings)}
    (hgives : ∀ g ∈ gs, Gives g.1 g.2) {es : Toml.Entries}
    (h : List.Forall₂ (fun e w => e.1.value = w.1 ∧ w.2.IsValue e.2.value) es (gs.map (·.1))) :
    ofEntries es = gs.foldr (fun g w => g.2.orElse w) {} ∧
      ∀ r : Roster, ∃ r', es.foldlM (fun r e => r.withEntry e.1 e.2) r = .ok r' := by
  induction gs generalizing es with
  | nil =>
    cases h
    exact ⟨rfl, fun r => ⟨r, rfl⟩⟩
  | cons g gs ih =>
    obtain ⟨hfirst, hmore⟩ := List.forall_mem_cons.mp hgives
    cases h with
    | cons he hes =>
      next e es =>
      obtain ⟨hrest, hread⟩ := ih hmore hes
      obtain ⟨hcons, hentry⟩ := ofEntries_cons hfirst he.1 he.2 es
      refine ⟨by rw [hcons, hrest, List.foldr_cons], fun r => ?_⟩
      obtain ⟨r₁, hr₁⟩ := hentry r
      obtain ⟨r₂, hr₂⟩ := hread r₁
      exact ⟨r₂, by rw [List.foldlM_cons, hr₁]; exact hr₂⟩

end Settings

/-! ## Files -/

/-- A document describes a roster, and these are the settings that it makes. -/
def Describes (document : String) (v : Settings) : Prop :=
  ∃ es r, Toml.parse document = .ok es ∧ ofEntries es = .ok r ∧ Settings.ofEntries es = v

/-- A file with a valid roster makes the settings. -/
def FileGives (s : Store) (p : Path) (v : Settings) : Prop :=
  ∃ document, textIn s p = .ok document ∧ Describes document v

/-- Whether a document describes a roster and makes given settings can be computed. -/
theorem describes_of_check {document : String} {v : Settings}
    (h : (match Toml.parse document with
      | .error _ => false
      | .ok es => (ofEntries es).isOk && decide (Settings.ofEntries es = v)) = true) :
    Describes document v := by
  split at h
  · cases h
  · next es hparse =>
    obtain ⟨hok, hsettings⟩ := Bool.and_eq_true_iff.mp h
    cases hr : ofEntries es with
    | error why => simp [hr, Except.isOk, Except.toBool] at hok
    | ok r => exact ⟨es, r, hparse, hr, of_decide_eq_true hsettings⟩

/-- Every choice of values can be given in a document. -/
theorem exists_document (v : Settings) : ∃ document, Describes document v := by
  have hgives := v.gives_written
  have hbare : ∀ w ∈ v.written.map (·.1), Toml.IsBare w.1 := by
    intro w hw
    obtain ⟨g, hg, rfl⟩ := List.mem_map.mp hw
    exact Settings.isBare_of_gives (hgives g hg)
  have hdistinct : ((v.written.map (·.1)).map (·.1)).Nodup := by
    rw [List.map_map]
    exact v.nodup_written
  obtain ⟨es, hparse, hall⟩ := Toml.parse_document hbare hdistinct
  obtain ⟨hsettings, hread⟩ := Settings.ofEntries_written hgives hall
  obtain ⟨r, hr⟩ := hread standard
  exact ⟨_, es, r, hparse, hr, hsettings.trans v.foldr_written⟩

theorem textIn_of_read {s : Store} {p : Path} {document : String}
    (h : s.read p = .ok (Utf8.encode document)) : textIn s p = .ok document := by
  rw [textIn, h]
  simp only [Utf8.decode?_encode]

/-- Every choice of values can be given in a file. -/
theorem exists_fileGives {s : Store} {p : Path} {x : Place} {old : Bytes} (hp : s.locate p = .ok x)
    (hold : s.node? x = some (.file old)) (v : Settings) :
    ∃ content, FileGives (s.put x (.file content)) p v := by
  obtain ⟨document, hdocument⟩ := exists_document v
  have hne : x ≠ [] := by
    rintro rfl
    cases hold
  have hgrows : s.Grows (s.put x (.file (Utf8.encode document))) :=
    Store.grows_put hne (by rw [hold]; nofun) _
  refine ⟨Utf8.encode document, document, textIn_of_read ?_, hdocument⟩
  rw [Store.read, Store.locate_mono hgrows hp]
  simp only [Store.node?_put_self s hne]

/-- A valid roster file gives its settings over the standard roster. -/
theorem load_eq {s : Store} {p : Path} {v : Settings} (h : FileGives s p v) :
    load s p = .ok (v.onto standard) := by
  obtain ⟨document, htext, es, r, hparse, hr, rfl⟩ := h
  rw [load, htext]
  simp only [hparse, hr]
  rw [Settings.onto_foldlM (Toml.parse_distinct hparse) hr]

end Roster

namespace Command

open Roster

/-- What the roster file of a run gives: nothing if there is none. -/
def FileGives (s : Store) (a : Arguments) (v : Settings) : Prop :=
  match a.config with
  | none => v = {}
  | some p => Roster.FileGives s p v

/-- The roster of a run is the standard one, with the settings of the file and, over these, those
of the flags. -/
theorem roster_eq {s : Store} {a : Arguments} {v : Settings} (h : FileGives s a v) :
    roster s a = check ((a.flags.trimmed.orElse v).onto .standard) := by
  cases hconfig : a.config with
  | none =>
    simp only [FileGives, hconfig] at h
    subst h
    simp only [roster, hconfig]
    rw [a.override_eq, ← Settings.onto_onto]
    rfl
  | some p =>
    simp only [FileGives, hconfig] at h
    simp only [roster, hconfig, load_eq h]
    rw [a.override_eq, Settings.onto_onto]

/-- **Flags and keys.** The roster of a run is the standard one with the values of its file and,
over these, the trimmed values of its flags, and no value changes that of another key. So any of the
flags can be left out if the file has their trimmed values instead, whatever it had there before and
also if there was none: the roster is the same, or it is refused for the same reason. Names without
blanks around them are the same in both places, and any file can be given any values. -/
theorem roster_flags_or_keys {s : Store} {a : Arguments} {v : Settings} (h : FileGives s a v)
    (keys : Key → Bool) :
    roster s a = check ((a.flags.trimmed.orElse v).onto .standard) ∧
    (∀ t p, Roster.FileGives t p ((a.flags.only keys).trimmed.orElse v) →
      roster t { a.without keys with config := some p } = roster s a) ∧
    ((a.flags.only keys).trimmed = a.flags.only keys →
      ∀ t p, Roster.FileGives t p ((a.flags.only keys).orElse v) →
        roster t { a.without keys with config := some p } = roster s a) ∧
    ∀ (t : Store) p x old, t.locate p = .ok x → t.node? x = some (.file old) →
      ∃ content, Roster.FileGives (t.put x (.file content)) p
        ((a.flags.only keys).trimmed.orElse v) := by
  have hmoved : ∀ t p, Roster.FileGives t p ((a.flags.only keys).trimmed.orElse v) →
      roster t { a.without keys with config := some p } = roster s a := by
    intro t p hfile
    have hother : FileGives t { a.without keys with config := some p }
        ((a.flags.only keys).trimmed.orElse v) := hfile
    rw [roster_eq hother, roster_eq h]
    show check (((a.without keys).flags.trimmed.orElse _).onto .standard) = _
    rw [a.flags_without keys v]
  refine ⟨roster_eq h, hmoved, fun htidy t p hfile => hmoved t p ?_, fun t p x old hp hold =>
    exists_fileGives hp hold _⟩
  rw [htidy]
  exact hfile

/-- A file with a directory and a blank name for the baseline, and a flag with blanks around
another name. -/
theorem roster_flags_or_keys_blanks :
    let p : Path := ⟨"r.toml"⟩
    let document := "results_dir = \"raw\"\nbaseline = \"  \"\n"
    let s : Store := ⟨SortedMap.ofList [(["r.toml"], .file (Utf8.encode document))], []⟩
    let r : Roster := { Roster.standard with resultsDir := ⟨"raw"⟩, baseline := "fast" }
    roster s { config := some p, baseline := some " fast\t" } = check r ∧
      ∃ content, roster (s.put ["r.toml"] (.file content)) { config := some p } = check r := by
  intro p document s r
  let a : Arguments := { config := some p, baseline := some " fast\t" }
  have hfile : FileGives s a { resultsDir := some ⟨"raw"⟩, baseline := some "  " } :=
    ⟨document, textIn_of_read (by decide +kernel), describes_of_check (by decide +kernel)⟩
  obtain ⟨hroster, hmoved, -, hexists⟩ := roster_flags_or_keys hfile fun k => k = .baseline
  have hr : (a.flags.trimmed.orElse
      { resultsDir := some ⟨"raw"⟩, baseline := some "  " }).onto .standard = r := by
    decide +kernel
  obtain ⟨content, hcontent⟩ :=
    hexists s p ["r.toml"] (Utf8.encode document) (by decide +kernel) (by decide +kernel)
  rw [hr] at hroster
  exact ⟨hroster, content, (hmoved _ p hcontent).trans hroster⟩

/-- A blank name for the baseline is refused in a flag and taken as it is in a file. -/
theorem roster_blank_baseline :
    let p : Path := ⟨"r.toml"⟩
    let document := "baseline = \"  \"\n"
    let s : Store := ⟨SortedMap.ofList [(["r.toml"], .file (Utf8.encode document))], []⟩
    Roster.FileGives s p { baseline := some "  " } ∧
      roster s { config := some p } = .ok { Roster.standard with baseline := "  " } ∧
      roster s { baseline := some "  " } = .error .emptyBaseline := by
  intro p document s
  have hfile : FileGives s { config := some p } { baseline := some "  " } :=
    ⟨document, textIn_of_read (by decide +kernel), describes_of_check (by decide +kernel)⟩
  exact ⟨hfile, (roster_eq hfile).trans rfl, rfl⟩

end Command

end BenchRatio
