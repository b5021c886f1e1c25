import BenchRatio.Proofs.Store.Directories

/-!
# What a path sees of a store

A path without two dots only sees its own place and the directories above it. Two stores that agree
there, up to directories that one of them lacks, are the same to the path: reading gives the same,
and making directories and files changes the same places.

* `Shows`: the second store has what the first one has on the way to a place, and maybe more
  directories above it.
* `read_of_shows`: **reading gives the same**, except that a name that is too long may be looked up
  in a directory that was missing.
* `Alike`: two stores have changed alike.
* `build_alike`, `create_alike`: making directories and opening files change them alike.
-/

namespace BenchRatio.Store

open BenchRatio.Path

/-- The place of a path without two dots, whether it exists or not. -/
def place (s : Store) (p : Path) : Place := s.start p ++ p.names

theorem place_congr {s t : Store} (h : t.workingDir = s.workingDir) (p : Path) :
    t.place p = s.place p := by
  rw [place, place, start_congr h]

/-- On the way to `x`, `t` has what `s` has, or a directory above `x` where `s` has nothing. -/
structure Shows (x : Place) (s t : Store) : Prop where
  workingDir : t.workingDir = s.workingDir
  node : ∀ q, q <+: x → t.node? q = s.node? q ∨
    q ≠ x ∧ s.node? q = none ∧ t.node? q = some .directory

variable {s t : Store} {x : Place}

theorem Shows.node_eq (h : Shows x s t) : t.node? x = s.node? x :=
  (h.node x (List.prefix_refl x)).resolve_right fun hne => hne.1 rfl

theorem Shows.node_eq_of_some (h : Shows x s t) {q : Place} (hq : q <+: x) {n : Node}
    (hn : s.node? q = some n) : t.node? q = some n := by
  rcases h.node q hq with heq | ⟨-, hnone, -⟩
  · rw [heq, hn]
  · rw [hn] at hnone
    cases hnone

/-! ## Reading -/

theorem follow_of_none {here : Place} (h : s.node? here = none) (pieces : List String) :
    s.follow here pieces = .error .notFound := by
  cases pieces with
  | nil => rw [follow, if_pos h]
  | cons piece more => rw [follow_cons_of_not_directory (by simp [h]), if_pos h]

/-- Where a walk without two dots ends. -/
theorem eq_of_follow {here there : Place} {pieces : List String} (hdots : ".." ∉ pieces)
    (h : s.follow here pieces = .ok there) : there = here ++ pieces.filter (¬ Nameless ·) := by
  induction pieces generalizing here with
  | nil =>
    rw [follow] at h
    split at h
    · cases h
    · simpa using (Except.ok.inj h).symm
  | cons piece more ih =>
    rw [List.mem_cons, not_or] at hdots
    rw [follow_cons_of_directory (directory_of_follow_cons h), if_neg (Ne.symm hdots.1)] at h
    split_ifs at h with hpiece
    · rw [ih hdots.2 h, List.filter_cons_of_neg (by simpa using hpiece)]
    · rw [ih hdots.2 h, List.filter_cons_of_pos (by simpa using hpiece)]
      simp

/-- A look-up gives what an earlier one gave, or finds a name too long where the earlier one found
nothing. -/
def SameOrLong {α : Type} (names : List String) (before after : Except Fault α) : Prop :=
  after = before ∨ before = .error .notFound ∧ after = .error .nameTooLong ∧
    ∃ name ∈ names, nameLimit < name.utf8ByteSize

theorem SameOrLong.mono {α : Type} {names more : List String} {before after : Except Fault α}
    (h : SameOrLong names before after) (hmore : ∀ name ∈ names, name ∈ more) :
    SameOrLong more before after :=
  h.imp_right fun ⟨hbefore, hafter, name, hname, hlong⟩ =>
    ⟨hbefore, hafter, name, hmore name hname, hlong⟩

/-- A walk sees the same, except that a name that is too long may be looked up in a directory that
was missing. -/
theorem follow_of_shows (htree : s.IsTree) (hshows : Shows x s t) {here : Place}
    {pieces : List String} (hx : here ++ pieces.filter (¬ Nameless ·) = x)
    (hdots : ".." ∉ pieces) :
    SameOrLong (pieces.filter (¬ Nameless ·)) (s.follow here pieces) (t.follow here pieces) := by
  induction pieces generalizing here with
  | nil =>
    obtain rfl : here = x := by simpa using hx
    rw [follow, follow, hshows.node_eq]
    exact .inl rfl
  | cons piece more ih =>
    rw [List.mem_cons, not_or] at hdots
    have hup := Ne.symm hdots.1
    by_cases hpiece : Nameless piece
    · rw [List.filter_cons_of_neg (by simpa using hpiece)] at hx ⊢
      have hrest := ih hx hdots.2
      rcases hshows.node here ⟨_, hx⟩ with heq | ⟨hne, hnone, hdirectory⟩
      · by_cases hnode : s.node? here = some .directory
        · rw [follow_cons_of_directory hnode, follow_cons_of_directory (heq.trans hnode),
            if_pos hpiece, if_pos hpiece]
          exact hrest
        · rw [follow_cons_of_not_directory hnode, follow_cons_of_not_directory (by rwa [heq]), heq]
          exact .inl rfl
      · rw [follow_of_none hnone] at hrest ⊢
        rwa [follow_cons_of_directory hdirectory, if_pos hpiece]
    · rw [List.filter_cons_of_pos (by simpa using hpiece)] at hx ⊢
      have hx' : here ++ [piece] ++ more.filter (¬ Nameless ·) = x := by
        rw [List.append_assoc]
        exact hx
      have hrest := (ih hx' hdots.2).mono fun _ => List.mem_cons_of_mem piece
      rcases hshows.node here ⟨_, hx⟩ with heq | ⟨hne, hnone, hdirectory⟩
      · by_cases hnode : s.node? here = some .directory
        · rw [follow_cons_of_directory hnode, follow_cons_of_directory (heq.trans hnode),
            if_neg hpiece, if_neg hpiece, if_neg hup, if_neg hup]
          split_ifs
          · exact .inl rfl
          · exact hrest
        · rw [follow_cons_of_not_directory hnode, follow_cons_of_not_directory (by rwa [heq]), heq]
          exact .inl rfl
      · -- The first store has nothing here, and so nothing below.
        have hbelow : s.node? (here ++ [piece]) = none := by
          by_contra hsome
          rw [htree.above here piece hsome] at hnone
          cases hnone
        rw [follow_of_none hbelow] at hrest
        rw [follow_of_none hnone, follow_cons_of_directory hdirectory, if_neg hpiece, if_neg hup]
        split_ifs with hlong
        · exact .inr ⟨rfl, rfl, piece, List.mem_cons_self, hlong⟩
        · exact hrest

theorem dots_notMem_origin (s : Store) {p : Path} (h : ".." ∉ p.names) :
    ".." ∉ (s.origin p).2 := by
  rw [← (filter_origin s p).2, List.mem_filter] at h
  exact fun hmem => h ⟨hmem, by decide⟩

/-- **Reading gives the same**, except that a name that is too long may be looked up in a directory
that was missing. -/
theorem read_of_shows (htree : s.IsTree) {p : Path} (hdots : ".." ∉ p.names)
    (hshows : Shows (s.place p) s t) : SameOrLong p.names (s.read p) (t.read p) := by
  obtain ⟨hstart, hnames⟩ := filter_origin s p
  have hdots' := dots_notMem_origin s hdots
  rw [Store.read, Store.read, locate, locate, origin_congr hshows.workingDir]
  cases hfault : pathFault? p with
  | some fault => exact .inl rfl
  | none =>
  generalize s.origin p = origin at *
  obtain ⟨here, pieces⟩ := origin
  have hx : here ++ pieces.filter (¬ Nameless ·) = s.place p := by rw [place, ← hstart, hnames]
  simp only [] at hnames hdots' ⊢
  have hfollow := follow_of_shows htree hshows hx hdots'
  rw [hnames] at hfollow
  rcases hfollow with heq | ⟨hs, ht, hlong⟩
  · rw [heq]
    cases hthere : s.follow here pieces with
    | error fault => exact .inl rfl
    | ok there =>
      obtain rfl : there = s.place p := (eq_of_follow hdots' hthere).trans hx
      simp only [hshows.node_eq]
      exact .inl rfl
  · rw [hs, ht]
    exact .inr ⟨rfl, rfl, hlong⟩

/-! ## Changing -/

/-- Two stores have changed alike on the way to `x`: the second one has changed where the first one
has, to the same, and nowhere else. Only directories have been made above `x`. -/
structure Alike (x : Place) (s₀ t₀ s t : Store) : Prop where
  shows : Shows x s t
  kept : ∀ q, s.node? q = s₀.node? q → t.node? q = t₀.node? q
  made : ∀ q, s.node? q ≠ s₀.node? q →
    t.node? q = s.node? q ∧ q <+: x ∧ (q ≠ x → s₀.node? q = none ∧ s.node? q = some .directory)

theorem Alike.refl (h : Shows x s t) : Alike x s t s t :=
  ⟨h, fun _ _ => rfl, fun _ hne => absurd rfl hne⟩

variable {s₀ t₀ : Store}

theorem Alike.none_before (h : Alike x s₀ t₀ s t) {q : Place} (hne : q ≠ x)
    (hnone : s.node? q = none) : s₀.node? q = none := by
  by_contra hsome
  have := (h.made q (by rw [hnone]; exact Ne.symm hsome)).2.2 hne
  rw [hnone] at this
  cases this.2

/-- Making a directory above `x` that is missing, in the second store only if it is missing there
too. -/
theorem Alike.makeDirectory (h : Alike x s₀ t₀ s t) {q : Place} (hq : q <+: x) (hne : q ≠ x)
    (hq' : q ≠ []) (hs : s.node? q = none) {t' : Store} (hdir : t'.workingDir = t.workingDir)
    (ht : ∀ r, t'.node? r = if r = q then some .directory else t.node? r) :
    Alike x s₀ t₀ (s.put q .directory) t' := by
  have hs' : ∀ r, (s.put q .directory).node? r = if r = q then some .directory else s.node? r :=
    node?_put s hq' .directory
  refine ⟨⟨hdir.trans h.shows.workingDir, fun r hr => ?_⟩, fun r hr => ?_, fun r hr => ?_⟩
  · rw [hs', ht]
    split
    · exact .inl rfl
    · exact h.shows.node r hr
  · rw [hs'] at hr
    rw [ht]
    split_ifs at hr ⊢ with heq
    · subst heq
      rw [h.none_before hne hs] at hr
      cases hr
    · exact h.kept r hr
  · rw [hs'] at hr ⊢
    rw [ht]
    split_ifs at hr ⊢ with heq
    · subst heq
      exact ⟨rfl, hq, fun _ => ⟨h.none_before hne hs, rfl⟩⟩
    · exact h.made r hr

/-- Putting a file at `x`. -/
theorem Alike.put (h : Alike x s₀ t₀ s t) (h₀ : Shows x s₀ t₀) (hx : x ≠ []) (content : Bytes) :
    Alike x s₀ t₀ (s.put x (.file content)) (t.put x (.file content)) := by
  have hs := node?_put s hx (.file content)
  have ht := node?_put t hx (.file content)
  refine ⟨⟨h.shows.workingDir, fun r hr => ?_⟩, fun r hr => ?_, fun r hr => ?_⟩
  · rw [hs, ht]
    split
    · exact .inl rfl
    · exact h.shows.node r hr
  · rw [hs] at hr
    rw [ht]
    split_ifs at hr ⊢ with heq
    · subst heq
      rw [h₀.node_eq, hr]
    · exact h.kept r hr
  · rw [hs] at hr ⊢
    rw [ht]
    split_ifs at hr ⊢ with heq
    · subst heq
      exact ⟨rfl, List.prefix_refl r, fun hne => absurd rfl hne⟩
    · exact h.made r hr

/-- Walking down towards `x` makes the same directories and meets the same files. -/
theorem build_alike (htree : s.IsTree) (halike : Alike x s₀ t₀ s t) {here : Place}
    {names : List String} (hx : here ++ names.filter (¬ Nameless ·) <+: x)
    (hne : here ++ names.filter (¬ Nameless ·) ≠ x) (hdots : ".." ∉ names)
    (hhere : s.node? here = some .directory) {fresh fresh' : Bool}
    (hfresh : fresh = true → ∀ name, s.node? (here ++ [name]) = none)
    (hfresh' : fresh' = true → fresh = true) :
    (t.build fresh' here names).2 = (s.build fresh here names).2 ∧
      Alike x s₀ t₀ (s.build fresh here names).1 (t.build fresh' here names).1 := by
  induction names generalizing s t here fresh fresh' with
  | nil => exact ⟨rfl, halike⟩
  | cons name names ih =>
    rw [List.mem_cons, not_or] at hdots
    have hup := Ne.symm hdots.1
    rw [build, build]
    by_cases hname : Nameless name
    · rw [List.filter_cons_of_neg (by simpa using hname)] at hx hne
      rw [if_pos hname, if_pos hname]
      exact ih htree halike hx hne hdots.2 hhere hfresh hfresh'
    rw [List.filter_cons_of_pos (by simpa using hname), ← List.singleton_append,
      ← List.append_assoc] at hx hne
    rw [if_neg hname, if_neg hname, if_neg hup, if_neg hup]
    split_ifs with hlong
    · exact ⟨rfl, halike⟩
    have hnext : here ++ [name] <+: x := (List.prefix_append _ _).trans hx
    have hnext' : here ++ [name] ≠ x := by
      rintro rfl
      exact hne (hx.eq_of_length_le (by simp))
    cases hs : s.node? (here ++ [name]) with
    | none =>
      have hne' : here ++ [name] ≠ [] := by simp
      have hmissing : s.node? (here ++ [name]) ≠ some .directory := by simp [hs]
      have htree' := htree.put hhere hmissing .directory
      have hmade : ∀ t' : Store, t'.workingDir = t.workingDir →
          (∀ r, t'.node? r = if r = here ++ [name] then some .directory else t.node? r) →
          ∀ fresh'', (t'.build fresh'' (here ++ [name]) names).2 =
              ((s.put (here ++ [name]) .directory).build true (here ++ [name]) names).2 ∧
            Alike x s₀ t₀ ((s.put (here ++ [name]) .directory).build true (here ++ [name]) names).1
              (t'.build fresh'' (here ++ [name]) names).1 := by
        intro t' hdir ht fresh''
        exact ih htree' (halike.makeDirectory hnext hnext' hne' hs hdir ht) hx hne hdots.2
          (node?_put_self s hne' _) (fun _ => htree.nothing_below_put hs) fun _ => rfl
      rcases halike.shows.node _ hnext with heq | ⟨-, -, hdirectory⟩
      · rw [heq, hs]
        exact hmade (t.put (here ++ [name]) .directory) rfl (node?_put t hne' _) true
      · rw [hdirectory]
        refine hmade t rfl (fun r => ?_) fresh'
        split
        · next heq => rw [heq, hdirectory]
        · rfl
    | some node =>
      have hold : fresh = false := by
        by_contra hnew
        rw [hfresh (by simpa using hnew)] at hs
        cases hs
      have hold' : fresh' = false := by
        by_contra hnew
        rw [hfresh' (by simpa using hnew)] at hold
        cases hold
      rw [halike.shows.node_eq_of_some hnext hs, hold, hold']
      cases node with
      | directory => exact ih htree halike hx hne hdots.2 hs (by simp) (by simp)
      | file content => exact ⟨rfl, halike⟩
      | device refusal => exact ⟨rfl, halike⟩

/-- What is on the way to a path, but not the path itself, is on the way to the directory above. -/
theorem isPrefix_above (s : Store) (p : Path) {q : Place} (hq : q <+: s.place p)
    (hne : q ≠ s.place p) : q <+: s.start p ++ p.names.dropLast := by
  rcases p.names.eq_nil_or_concat with hnil | ⟨above, name, hconcat⟩
  · rw [place, hnil] at hq
    rwa [hnil]
  · have hplace : s.place p = s.start p ++ above ++ [name] := by
      rw [place, hconcat, List.concat_eq_append, List.append_assoc]
    rw [hplace, List.prefix_concat_iff] at hq
    rw [hconcat, List.concat_eq_append, List.dropLast_concat]
    exact hq.resolve_left (hplace ▸ hne)

/-- Where walking down ends well, directories are all the way. -/
theorem directory_of_build (htree : s.IsTree) {here : Place}
    (hhere : s.node? here = some .directory) {fresh : Bool} {names : List String}
    (hnames : ∀ name ∈ names, ¬ Nameless name) (hdots : ".." ∉ names) {there : Place}
    (h : (s.build fresh here names).2 = .ok there) {q : Place} (hq : q <+: here ++ names) :
    (s.build fresh here names).1.node? q = some .directory := by
  obtain ⟨htree', -, hway⟩ := build_spec htree hhere fresh names
  have henter := hway there h
  have hthere : there = here ++ names := by
    have hdots' : ".." ∉ names ++ [""] := by
      rw [List.mem_append, not_or]
      exact ⟨hdots, by decide⟩
    have hkept : names.filter (¬ Nameless ·) = names :=
      List.filter_eq_self.mpr fun name hname => decide_eq_true (hnames name hname)
    rw [eq_of_follow hdots' henter, List.filter_append, hkept]
    simp [Nameless]
  exact htree'.directory_of_isPrefix (hthere ▸ hq) (follow_append henter).1

/-! ## Opening files -/

/-- A walk only looks at places on its way. -/
theorem follow_congr (hsame : ∀ q, q <+: x → t.node? q = s.node? q) {here : Place}
    {pieces : List String} (hx : here ++ pieces.filter (¬ Nameless ·) <+: x)
    (hdots : ".." ∉ pieces) : t.follow here pieces = s.follow here pieces := by
  induction pieces generalizing here with
  | nil => rw [follow, follow, hsame here (by simpa using hx)]
  | cons piece more ih =>
    have hhere := hsame here ((List.prefix_append _ _).trans hx)
    rw [List.mem_cons, not_or] at hdots
    by_cases hnode : s.node? here = some .directory
    · rw [follow_cons_of_directory hnode, follow_cons_of_directory (hhere.trans hnode),
        if_neg (Ne.symm hdots.1), if_neg (Ne.symm hdots.1)]
      split_ifs with hpiece hlong
      · exact ih (by rwa [List.filter_cons_of_neg (by simpa using hpiece)] at hx) hdots.2
      · rfl
      · rw [List.filter_cons_of_pos (by simpa using hpiece), ← List.singleton_append,
          ← List.append_assoc] at hx
        exact ih hx hdots.2
    · rw [follow_cons_of_not_directory hnode, follow_cons_of_not_directory (by rwa [hhere]), hhere]

/-- The last name of a path goes to the path's place. -/
theorem place_of_target {p : Path} (hdots : ".." ∉ p.names) {target : Target}
    (h : s.target p = .ok (some target)) (hlast : isDots target.name = false) :
    target.above ++ [target.name] = s.place p := by
  obtain ⟨-, hempty, above, k, hpieces, hfollow, -⟩ := target_eq_some h
  obtain ⟨hstart, hnames⟩ := filter_origin s p
  have hdots' := dots_notMem_origin s hdots
  rw [hpieces] at hnames hdots'
  have habove : ".." ∉ above ++ [""] := by
    simp only [List.mem_append, List.mem_singleton, not_or] at hdots' ⊢
    exact ⟨hdots'.1, by decide⟩
  have hname : ¬ Nameless target.name := by
    rintro (h | h)
    · exact hempty h
    · simp [isDots, h] at hlast
  have hlast : (target.name :: List.replicate k "").filter (¬ Nameless ·) = [target.name] := by
    rw [List.filter_cons_of_pos (by simpa using hname)]
    simp [Nameless]
  have hblank : [""].filter (¬ Nameless ·) = [] := by decide
  rw [eq_of_follow habove hfollow, place, ← hnames, hstart, List.filter_append, List.filter_append,
    hlast, hblank, List.append_nil, List.append_assoc]

/-- Stores that agree on the way to a path send its last name to the same place. -/
theorem target_congr {p : Path} (hdots : ".." ∉ p.names) (hdir : t.workingDir = s.workingDir)
    (hsame : ∀ q, q <+: s.place p → t.node? q = s.node? q) : t.target p = s.target p := by
  obtain ⟨hstart, hnames⟩ := filter_origin s p
  have hdots' := dots_notMem_origin s hdots
  rw [target, target, origin_congr hdir]
  cases pathFault? p with
  | some fault => rfl
  | none =>
    generalize s.origin p = origin at *
    obtain ⟨here, pieces⟩ := origin
    simp only []
    cases hdrop : pieces.reverse.dropWhile (· = "") with
    | nil => rfl
    | cons name above =>
      obtain ⟨blanks, hblanks⟩ :
          name :: above <:+ pieces.reverse := hdrop ▸ List.dropWhile_suffix _
      have hpieces : pieces = above.reverse ++ name :: blanks.reverse := by
        rw [← List.reverse_reverse pieces, ← hblanks]
        simp
      have hup : ".." ∉ above.reverse ++ [""] := by
        rw [hpieces] at hdots'
        simp only [List.mem_append, List.mem_singleton, not_or] at hdots' ⊢
        exact ⟨hdots'.1, by decide⟩
      have hon : here ++ (above.reverse ++ [""]).filter (¬ Nameless ·) <+: s.place p := by
        rw [place, ← hstart, ← hnames, hpieces, List.filter_append, List.filter_append]
        simp [Nameless]
      simp only [follow_congr hsame hon hup]

/-- Stores that agree on the way to a path open its file alike. -/
theorem create_alike {p : Path} (hdots : ".." ∉ p.names) (hdir : t.workingDir = s.workingDir)
    (hsame : ∀ q, q <+: s.place p → t.node? q = s.node? q) :
    (∃ fault, s.create p = .error fault ∧ t.create p = .error fault) ∨
      (∃ refusal, s.node? (s.place p) = some (.device refusal) ∧
        s.create p = .ok (s, s.place p) ∧ t.create p = .ok (t, s.place p)) ∨
      s.place p ≠ [] ∧ s.node? (s.place p) ≠ some .directory ∧
        s.create p = .ok (s.put (s.place p) (.file []), s.place p) ∧
        t.create p = .ok (t.put (s.place p) (.file []), s.place p) := by
  rw [create, create, target_congr hdots hdir hsame]
  cases htarget' : s.target p with
  | error fault => exact .inl ⟨fault, rfl, rfl⟩
  | ok found =>
    cases found with
    | none => exact .inl ⟨_, rfl, rfl⟩
    | some target =>
      simp only []
      split_ifs with hlast hlong
      · exact .inl ⟨_, rfl, rfl⟩
      · exact .inl ⟨_, rfl, rfl⟩
      · rw [not_or, Bool.not_eq_true, Bool.not_eq_true] at hlast
        have hplace := place_of_target hdots htarget' hlast.2
        have hne : s.place p ≠ [] := by simp [← hplace]
        rw [hplace, hsame _ (List.prefix_refl _)]
        cases hnode : s.node? (s.place p) with
        | none => exact .inr (.inr ⟨hne, by simp, rfl, rfl⟩)
        | some node =>
          cases node with
          | directory => exact .inl ⟨_, rfl, rfl⟩
          | file content => exact .inr (.inr ⟨hne, by simp, rfl, rfl⟩)
          | device refusal => exact .inr (.inl ⟨refusal, rfl, rfl, rfl⟩)

end BenchRatio.Store
