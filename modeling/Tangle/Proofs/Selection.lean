import Tangle.Session
import Tangle.Proofs.Relative
import Tangle.Proofs.Sorted

/-!
# Documents held in memory

A workspace whose documents are on a shelf. If no two of the texts given have paths that
are alike, the shelf holds them in the order of their paths (`Shelf.ordered_ofList`), so
it does not matter in which order they were given (`Shelf.ofList_congr`).

The documents of the workspace are then a list that is known by its members: strictly
increasing, with exactly the paths on the shelf that some pattern matches
(`Workspace.documents_of_shelf`). The same goes for a selection of them. A path that is
given *names* a document (`Workspace.Names`) if the two have the same components, once
the path is seen from the input directory (`Workspace.within`). Selecting succeeds if
every path names a document (`Workspace.exists_select_iff`), gives those that are named
(`Workspace.mem_select`), and stops at the first path that names none
(`Workspace.select_eq_error_iff`).

The patterns are only used to find documents, so a workspace with other patterns that
finds the same documents is tangled alike (`Workspace.tangle_restocked`).
-/

namespace Tangle

/-! ## Shelves -/

namespace Shelf

/-- The texts are in the order of their paths. -/
def Ordered (texts : List (Path × Text)) : Prop := texts.Pairwise fun e e' => e.1.Before e'.1

/-- No two of the paths are alike. -/
def Distinct (texts : List (Path × Text)) : Prop := texts.Pairwise fun e e' => ¬e.1.alike e'.1

instance : DecidablePred Distinct := fun texts =>
  inferInstanceAs (Decidable (texts.Pairwise fun e e' => ¬e.1.alike e'.1))

variable {texts texts' : List (Path × Text)} {path : Path} {text : Text}

theorem Distinct.perm (h : Distinct texts) (hp : texts.Perm texts') : Distinct texts' :=
  (hp.pairwise_iff fun hab hba => hab (Path.alike_symm hba)).1 h

/-- A text with a path of its own is put in its place. -/
theorem insert_perm (h : ∀ e ∈ texts, ¬e.1.alike path) :
    (insert path text texts).Perm ((path, text) :: texts) := by
  fun_induction insert path text texts with
  | case1 => exact .refl _
  | case2 p t more hp => exact absurd hp (h _ List.mem_cons_self)
  | case3 p t more hp hle => exact .refl _
  | case4 p t more hp hle ih =>
    exact ((ih fun e he => h e (List.mem_cons_of_mem _ he)).cons _).trans (.swap ..)

theorem insert_ordered (ho : Ordered texts) (h : ∀ e ∈ texts, ¬e.1.alike path) :
    Ordered (insert path text texts) := by
  fun_induction insert path text texts with
  | case1 => exact List.pairwise_singleton _ _
  | case2 p t more hp => exact absurd hp (h _ List.mem_cons_self)
  | case3 p t more hp hle =>
    have hbefore : path.Before p :=
      (Path.le_iff.1 hle).resolve_right fun halike => hp (Path.alike_symm halike)
    refine List.pairwise_cons.2 ⟨fun e he => ?_, ho⟩
    rcases List.mem_cons.1 he with rfl | he
    · exact hbefore
    · exact hbefore.trans ((List.pairwise_cons.1 ho).1 e he)
  | case4 p t more hp hle ih =>
    have hbefore : p.Before path := by
      have htotal : p.le path ∨ path.le p := by simpa using p.le_total path
      exact (Path.le_iff.1 (htotal.resolve_right hle)).resolve_right hp
    obtain ⟨hfirst, hmore⟩ := List.pairwise_cons.1 ho
    have hrest : ∀ e ∈ more, ¬e.1.alike path := fun e he => h e (List.mem_cons_of_mem _ he)
    refine List.pairwise_cons.2 ⟨fun e he => ?_, ih hmore hrest⟩
    rcases List.mem_cons.1 ((insert_perm hrest).subset he) with rfl | he
    · exact hbefore
    · exact hfirst e he

/-- Texts that are added one after the other are put in order. -/
theorem foldl_add (files : List (Path × Text)) (s : Shelf) (ho : Ordered s.texts)
    (hd : Distinct (s.texts ++ files)) :
    Ordered (files.foldl (fun s (path, text) => s.add path text) s).texts ∧
      (files.foldl (fun s (path, text) => s.add path text) s).texts.Perm (s.texts ++ files) := by
  induction files generalizing s with
  | nil => exact ⟨ho, by simp⟩
  | cons file files ih =>
    have hnew : ∀ e ∈ s.texts, ¬e.1.alike file.1 := fun e he =>
      (List.pairwise_append.1 hd).2.2 e he file List.mem_cons_self
    have hadd : (s.add file.1 file.2).texts.Perm (file :: s.texts) := insert_perm hnew
    have hperm : (s.texts ++ file :: files).Perm ((s.add file.1 file.2).texts ++ files) :=
      List.perm_middle.trans (hadd.symm.append_right files)
    obtain ⟨hordered, hp⟩ := ih (s.add file.1 file.2) (insert_ordered ho hnew) (hd.perm hperm)
    exact ⟨hordered, hp.trans hperm.symm⟩

/-- The shelf holds the texts given, in the order of their paths. -/
theorem ordered_ofList {files : List (Path × Text)} (h : Distinct files) :
    Ordered (ofList files).texts ∧ (ofList files).texts.Perm files :=
  foldl_add files {} .nil h

/-- The order in which the texts are given does not matter. -/
theorem ofList_congr {files files' : List (Path × Text)} (h : Distinct files)
    (hp : files'.Perm files) : ofList files' = ofList files := by
  obtain ⟨ho, hperm⟩ := ordered_ofList h
  obtain ⟨ho', hperm'⟩ := ordered_ofList (h.perm hp.symm)
  have htexts : (ofList files').texts = (ofList files).texts :=
    List.Perm.eq_of_pairwise (fun e e' _ _ hlt hgt => absurd hgt hlt.asymm) ho' ho
      (hperm'.trans (hp.trans hperm.symm))
  exact congrArg Shelf.mk htexts

/-- A path of a text given is the only one that is alike to it. -/
theorem Distinct.eq_of_alike {files : List (Path × Text)} (h : Distinct files) {p q : Path}
    (hp : p ∈ files.map (·.1)) (hq : q ∈ files.map (·.1)) (halike : p.alike q) : p = q :=
  Path.eq_of_alike (List.pairwise_map.2 h) hp hq halike

end Shelf

/-! ## Operations on each item of a list -/

section Items

variable {α β : Type} {f : α → Except Error β} {l : List α}

/-- If an operation succeeds on each item, the results are those of the items. -/
theorem mem_of_mapM_eq_ok {l' : List β} (h : l.mapM f = .ok l') :
    (∀ a ∈ l, ∃ b, f a = .ok b) ∧ ∀ b, b ∈ l' ↔ ∃ a ∈ l, f a = .ok b := by
  induction l generalizing l' with
  | nil =>
    cases h
    simp
  | cons a l ih =>
    cases ha : f a with
    | error e =>
      rw [mapM_cons_of_error ha] at h
      cases h
    | ok b =>
      rw [mapM_cons_of_ok ha] at h
      cases hl : l.mapM f with
      | error e =>
        rw [hl] at h
        cases h
      | ok more =>
        rw [hl] at h
        cases h
        obtain ⟨hall, hmem⟩ := ih hl
        refine ⟨List.forall_mem_cons.2 ⟨⟨b, ha⟩, hall⟩, fun x => ?_⟩
        rw [List.mem_cons, hmem, List.exists_mem_cons_iff, ha, Except.ok.injEq, eq_comm]

/-- An operation on each item fails at the first item on which it does. -/
theorem mapM_eq_error_iff {e : Error} :
    l.mapM f = .error e ↔
      ∃ front a back, l = front ++ a :: back ∧ (∀ x ∈ front, ∃ b, f x = .ok b) ∧
        f a = .error e := by
  induction l with
  | nil => simp [pure, Except.pure]
  | cons a l ih =>
    cases ha : f a with
    | error e' =>
      rw [mapM_cons_of_error ha, Except.error.injEq]
      constructor
      · rintro rfl
        exact ⟨[], a, l, rfl, by simp, ha⟩
      · rintro ⟨front, x, back, hl, hfront, hx⟩
        cases front with
        | nil =>
          cases hl
          exact Except.error.inj (ha.symm.trans hx)
        | cons y front =>
          cases hl
          obtain ⟨b, hb⟩ := hfront a List.mem_cons_self
          cases ha.symm.trans hb
    | ok b =>
      rw [mapM_cons_of_ok ha]
      constructor
      · intro h
        have hl : l.mapM f = .error e := by
          cases hm : l.mapM f <;> simp_all [Except.map]
        obtain ⟨front, x, back, rfl, hfront, hx⟩ := ih.1 hl
        exact ⟨a :: front, x, back, rfl, List.forall_mem_cons.2 ⟨⟨b, ha⟩, hfront⟩, hx⟩
      · rintro ⟨front, x, back, hl, hfront, hx⟩
        cases front with
        | nil =>
          cases hl
          cases ha.symm.trans hx
        | cons y front =>
          cases hl
          rw [ih.2 ⟨front, x, back, rfl, (List.forall_mem_cons.1 hfront).2, hx⟩]
          rfl

/-- An operation that succeeds on every item succeeds on each of them in turn. -/
theorem exists_mapM_eq_ok (h : ∀ a ∈ l, ∃ b, f a = .ok b) : ∃ l', l.mapM f = .ok l' := by
  cases hl : l.mapM f with
  | ok l' => exact ⟨l', rfl⟩
  | error e =>
    obtain ⟨front, a, back, rfl, -, ha⟩ := mapM_eq_error_iff.1 hl
    obtain ⟨b, hb⟩ := h a (List.mem_append_right front List.mem_cons_self)
    cases ha.symm.trans hb

end Items

/-! ## The documents of a workspace -/

/-- The pattern describes the path as it is written. -/
def Glob.Matches (pattern : Text) (p : Path) : Prop :=
  ∃ tokens, Glob.parse pattern = .ok tokens ∧ Pattern.describes tokens p.text

namespace Workspace

variable {w : Workspace} {files : List (Path × Text)}

/-- What a pattern finds on a shelf. -/
theorem find_of_shelf (hlib : w.library = (Shelf.ofList files).library)
    (hd : Shelf.Distinct files) {pattern : Text} (hp : ∃ tokens, Glob.parse pattern = .ok tokens) :
    ∃ paths, w.find pattern = .ok paths ∧
      ∀ p, p ∈ paths ↔ p ∈ files.map (·.1) ∧ Glob.Matches pattern p := by
  obtain ⟨tokens, htokens⟩ := hp
  have hmem (p : Path) : p ∈ (Shelf.ofList files).texts.map (·.1) ↔ p ∈ files.map (·.1) :=
    ((Shelf.ordered_ofList hd).2.map _).mem_iff
  have hfind : w.find pattern = .ok (((Shelf.ofList files).texts.map (·.1)).filter
      fun p => tokens.accepts p.text) := by
    simp only [find, hlib, Shelf.library, Shelf.find, htokens]
  refine ⟨_, hfind, fun p => ?_⟩
  rw [List.mem_filter, hmem, Glob.Pattern.accepts_eq_describes]
  simp [Glob.Matches, htokens]

/-- The documents on a shelf are those that some pattern matches, in order. -/
theorem documents_of_shelf (hlib : w.library = (Shelf.ofList files).library)
    (hd : Shelf.Distinct files)
    (hp : ∀ pattern ∈ w.config.sourcePatterns, ∃ tokens, Glob.parse pattern = .ok tokens) :
    ∃ docs, w.documents = .ok docs ∧ docs.Pairwise Path.Before ∧
      ∀ p, p ∈ docs ↔ p ∈ files.map (·.1) ∧
        ∃ pattern ∈ w.config.sourcePatterns, Glob.Matches pattern p := by
  have hfind : ∀ pattern ∈ w.config.sourcePatterns, ∃ paths, w.find pattern = .ok paths ∧
      ∀ p, p ∈ paths ↔ p ∈ files.map (·.1) ∧ Glob.Matches pattern p :=
    fun pattern hpattern => find_of_shelf hlib hd (hp pattern hpattern)
  obtain ⟨found, hfound⟩ : ∃ found, w.config.sourcePatterns.mapM w.find = .ok found :=
    exists_mapM_eq_ok fun pattern hpattern => (hfind pattern hpattern).imp fun _ h => h.1
  have hmem (p : Path) : p ∈ found.flatten ↔ p ∈ files.map (·.1) ∧
      ∃ pattern ∈ w.config.sourcePatterns, Glob.Matches pattern p := by
    rw [List.mem_flatten]
    constructor
    · rintro ⟨paths, hpaths, h⟩
      obtain ⟨pattern, hpattern, heq⟩ := ((mem_of_mapM_eq_ok hfound).2 paths).1 hpaths
      obtain ⟨paths', heq', hmem⟩ := hfind pattern hpattern
      cases heq.symm.trans heq'
      exact ⟨((hmem p).1 h).1, pattern, hpattern, ((hmem p).1 h).2⟩
    · rintro ⟨hfile, pattern, hpattern, hmatch⟩
      obtain ⟨paths, heq, hmem⟩ := hfind pattern hpattern
      exact ⟨paths, ((mem_of_mapM_eq_ok hfound).2 paths).2 ⟨pattern, hpattern, heq⟩,
        (hmem p).2 ⟨hfile, hmatch⟩⟩
  have hdocuments : w.documents = .ok (Path.sorted found.flatten) := by
    rw [documents, hfound]
    rfl
  refine ⟨_, hdocuments, Path.pairwise_sorted _, fun p => ?_⟩
  rw [Path.mem_sorted_iff, hmem]
  exact fun p hp q hq => hd.eq_of_alike ((hmem p).1 hp).1 ((hmem q).1 hq).1

/-! ## Selecting documents -/

/-- The components of a path as seen from the input directory, if it is inside of it. -/
def within (w : Workspace) (path : Path) : List Path.Component :=
  if w.inputDir.components <+: path.components then
    path.components.drop w.inputDir.components.length
  else path.components

/-- The path names the document. -/
def Names (w : Workspace) (path doc : Path) : Prop := doc.components = w.within path

instance (w : Workspace) : DecidableRel w.Names := fun path doc =>
  inferInstanceAs (Decidable (doc.components = w.within path))

/-- The path that a document is compared with has these components. -/
theorem components_getD_relativeTo? (w : Workspace) (path : Path) :
    ((path.relativeTo? w.inputDir).getD path).components = w.within path := by
  rw [within]
  cases h : path.relativeTo? w.inputDir with
  | some q =>
    have hcomponents := Path.components_relativeTo? h
    rw [if_pos ⟨_, hcomponents.symm⟩, hcomponents, List.drop_left, Option.getD_some]
  | none =>
    have hprefix : ¬w.inputDir.components <+: path.components := by
      rw [← List.isPrefixOf_iff_prefix]
      intro hp
      rw [Path.relativeTo?, if_pos hp] at h
      split at h <;> cases h
    rw [if_neg hprefix, Option.getD_none]

theorem alike_iff_names {path doc : Path} :
    doc.alike ((path.relativeTo? w.inputDir).getD path) ↔ w.Names path doc := by
  rw [Path.alike_iff, components_getD_relativeTo?, Names]

/-- A path is looked for among the documents by what it names. -/
theorem find?_alike (docs : List Path) (path : Path) :
    docs.find? (·.alike ((path.relativeTo? w.inputDir).getD path)) =
      docs.find? (w.Names path ·) := by
  congr 1
  funext doc
  rw [Bool.eq_iff_iff, alike_iff_names, decide_eq_true_iff]

/-- With documents in order, a path picks the one that it names. -/
theorem pick_eq_ok_iff {docs : List Path} (h : docs.Pairwise Path.Before) {path doc : Path} :
    w.pick docs path = .ok doc ↔ doc ∈ docs ∧ w.Names path doc := by
  rw [pick, find?_alike]
  cases hf : docs.find? (w.Names path ·) with
  | none =>
    have hnone := List.find?_eq_none.1 hf
    simp only [reduceCtorEq, false_iff, not_and]
    exact fun hdoc hnames => hnone doc hdoc (decide_eq_true hnames)
  | some found =>
    have hmem := List.mem_of_find?_eq_some hf
    have hnames : w.Names path found := by simpa using List.find?_some hf
    rw [Except.ok.injEq]
    constructor
    · rintro rfl
      exact ⟨hmem, hnames⟩
    · -- Of documents in order, no two have the same components.
      rintro ⟨hdoc, hnames'⟩
      exact Path.eq_of_alike (h.imp Path.Before.not_alike) hmem hdoc
        (Path.alike_iff.2 (hnames.trans hnames'.symm))

/-- A path that names no document is an error. -/
theorem pick_eq_error_iff {docs : List Path} {path : Path} {e : Error} :
    w.pick docs path = .error e ↔ e = .notDocument path ∧ ∀ doc ∈ docs, ¬w.Names path doc := by
  rw [pick, find?_alike]
  cases hf : docs.find? (w.Names path ·) with
  | none =>
    have hnone := List.find?_eq_none.1 hf
    rw [Except.error.injEq, eq_comm]
    exact (and_iff_left fun doc hdoc hnames => hnone doc hdoc (decide_eq_true hnames)).symm
  | some found =>
    have hnames : w.Names path found := by simpa using List.find?_some hf
    simp only [reduceCtorEq, false_iff, not_and, not_forall, not_not]
    exact fun _ => ⟨found, List.mem_of_find?_eq_some hf, hnames⟩

theorem select_eq (docs paths : List Path) (h : w.documents = .ok docs) :
    w.select paths = (paths.mapM (w.pick docs)).map Path.sorted := by
  simp only [select, h]
  change (paths.mapM (w.pick docs) >>= fun picked => pure (Path.sorted picked)) = _
  cases paths.mapM (w.pick docs) <;> rfl

section Selecting

variable {docs paths chosen : List Path} (h : w.documents = .ok docs)
  (ho : docs.Pairwise Path.Before)
include h ho

/-- Paths that each name a document select the documents that they name. -/
theorem select_of_names (hp : ∀ path ∈ paths, ∃ doc ∈ docs, w.Names path doc) :
    ∃ chosen, w.select paths = .ok chosen ∧ chosen.Pairwise Path.Before ∧
      ∀ doc, doc ∈ chosen ↔ doc ∈ docs ∧ ∃ path ∈ paths, w.Names path doc := by
  obtain ⟨picked, hpicked⟩ : ∃ picked, paths.mapM (w.pick docs) = .ok picked := by
    refine exists_mapM_eq_ok fun path hpath => ?_
    obtain ⟨doc, hdoc, hnames⟩ := hp path hpath
    exact ⟨doc, (pick_eq_ok_iff ho).2 ⟨hdoc, hnames⟩⟩
  have hmem (doc : Path) : doc ∈ picked ↔ doc ∈ docs ∧ ∃ path ∈ paths, w.Names path doc := by
    rw [(mem_of_mapM_eq_ok hpicked).2]
    simp only [pick_eq_ok_iff ho]
    exact ⟨fun ⟨path, hpath, hdoc, hnames⟩ => ⟨hdoc, path, hpath, hnames⟩,
      fun ⟨hdoc, path, hpath, hnames⟩ => ⟨path, hpath, hdoc, hnames⟩⟩
  refine ⟨Path.sorted picked, ?_, Path.pairwise_sorted _, fun doc => ?_⟩
  · rw [select_eq docs paths h, hpicked]
    rfl
  · rw [Path.mem_sorted_iff, hmem]
    exact fun p hp q hq =>
      Path.eq_of_alike (ho.imp Path.Before.not_alike) ((hmem p).1 hp).1 ((hmem q).1 hq).1

/-- Paths fail to select documents at the first one that names none. -/
theorem select_eq_error_iff {e : Error} :
    w.select paths = .error e ↔
      ∃ front path back, paths = front ++ path :: back ∧
        (∀ p ∈ front, ∃ doc ∈ docs, w.Names p doc) ∧ (∀ doc ∈ docs, ¬w.Names path doc) ∧
        e = .notDocument path := by
  have hmap : w.select paths = .error e ↔ paths.mapM (w.pick docs) = .error e := by
    rw [select_eq docs paths h]
    cases paths.mapM (w.pick docs) <;> simp [Except.map]
  rw [hmap, mapM_eq_error_iff]
  simp only [pick_eq_ok_iff ho, pick_eq_error_iff]
  exact exists_congr fun _ => exists_congr fun _ => exists_congr fun _ => by tauto

/-- Paths select documents exactly if each of them names one. -/
theorem exists_select_iff :
    (∃ chosen, w.select paths = .ok chosen) ↔ ∀ path ∈ paths, ∃ doc ∈ docs, w.Names path doc := by
  refine ⟨fun ⟨chosen, hchosen⟩ => ?_, fun hp => (select_of_names h ho hp).imp fun _ h => h.1⟩
  obtain ⟨picked, hpicked⟩ : ∃ picked, paths.mapM (w.pick docs) = .ok picked := by
    rw [select_eq docs paths h] at hchosen
    cases hm : paths.mapM (w.pick docs) with
    | ok picked => exact ⟨picked, rfl⟩
    | error e =>
      rw [hm] at hchosen
      cases hchosen
  intro path hpath
  obtain ⟨doc, hdoc⟩ := (mem_of_mapM_eq_ok hpicked).1 path hpath
  exact ⟨doc, (pick_eq_ok_iff ho).1 hdoc⟩

/-- The documents that are selected are those that are named, in order. -/
theorem mem_select (hs : w.select paths = .ok chosen) :
    chosen.Pairwise Path.Before ∧
      ∀ doc, doc ∈ chosen ↔ doc ∈ docs ∧ ∃ path ∈ paths, w.Names path doc := by
  obtain ⟨chosen', hs', hmem⟩ := select_of_names h ho ((exists_select_iff h ho).1 ⟨chosen, hs⟩)
  cases hs.symm.trans hs'
  exact hmem

/-- Only what the paths are as seen from the input directory matters for a selection. -/
theorem select_congr {paths' : List Path} (hs : w.select paths = .ok chosen)
    (hw : ∀ cs, cs ∈ paths'.map w.within ↔ cs ∈ paths.map w.within) :
    w.select paths' = .ok chosen := by
  have hnames : ∀ path ∈ paths', ∃ doc ∈ docs, w.Names path doc := by
    intro path' hpath'
    obtain ⟨path, hpath, heq⟩ := List.mem_map.1 ((hw _).1 (List.mem_map_of_mem hpath'))
    obtain ⟨doc, hdoc, hn⟩ := (exists_select_iff h ho).1 ⟨chosen, hs⟩ path hpath
    exact ⟨doc, hdoc, hn.trans heq⟩
  have hnamed (paths : List Path) (doc : Path) :
      (∃ path ∈ paths, w.Names path doc) ↔ doc.components ∈ paths.map w.within := by
    simp only [Names, List.mem_map, eq_comm]
  obtain ⟨chosen', hs', ho', hmem'⟩ := select_of_names h ho hnames
  obtain ⟨hchosen, hmem⟩ := mem_select h ho hs
  have heq : chosen' = chosen := by
    refine Path.eq_of_pairwise_before ho' hchosen fun doc => ?_
    rw [hmem', hmem, hnamed, hnamed, hw]
  rw [hs', heq]

end Selecting

/-- A relative path names what it names when it is taken from the input directory. -/
theorem within_join (ha : w.inputDir.isAbsolute) {path : Path} (hp : path.lead = none) :
    w.within (w.inputDir.join path) = w.within path := by
  have hroot : w.inputDir.text.head? = some '/' := by simpa [Path.isAbsolute] using ha
  have hdir : w.inputDir.text ≠ [] := by
    intro h
    rw [h] at hroot
    cases hroot
  have hrelative : path.isAbsolute = false := by
    rw [Path.lead_eq] at hp
    simp only [Path.isAbsolute, beq_eq_false_iff_ne, ne_eq]
    intro h
    rw [if_pos h] at hp
    cases hp
  have hsteps : path.components = Path.steps path.text := by
    rw [Path.components_eq, hp, Option.toList_none, List.nil_append]
  have hjoin := Path.components_join hdir hrelative
  -- Seen as it is, the path does not start at the root directory.
  have houtside : ¬w.inputDir.components <+: path.components := by
    intro h
    have hmem : Path.Component.root ∈ w.inputDir.components := by
      rw [Path.components_eq, Path.lead_eq, if_pos hroot]
      exact List.mem_cons_self
    exact Path.root_notMem_steps path.text (hsteps ▸ h.subset hmem)
  rw [within, if_pos ⟨_, hjoin.symm⟩, hjoin, List.drop_left, within, if_neg houtside, hsteps]

/-! ## Other patterns, and texts in another order -/

/-- The workspace with other patterns, and with other texts on its shelf. -/
def restocked (w : Workspace) (patterns : List Text) (files : List (Path × Text)) : Workspace :=
  { w with
    config := { w.config with sourcePatterns := patterns }
    library := (Shelf.ofList files).library }

end Workspace

/-- The lines of an unfolding do not depend on the patterns. -/
theorem Unfolding.render_patterns (config : Config) (patterns : List Text) (u : Unfolding)
    (c : Chunk) :
    u.render { config with sourcePatterns := patterns } c = u.render config c := by
  induction u generalizing c with
  | done => rfl
  | plain text rest ih => exact congrArg (text :: ·) (ih c)
  | begins location rest ih | ends location rest ih | missing r location resume rest ih =>
    exact congrArg (_ ++ ·) (ih c)
  | inserted r child inside resume rest ihInside ih =>
    rw [render, render, ihInside child, ih c]
    rfl

namespace Session

theorem render_restocked (s : Session) (w : Workspace) (patterns : List Text)
    (files : List (Path × Text)) (c : Chunk) :
    s.render (w.restocked patterns files) c = s.render w c := by
  have hexpand : c.expand s.store (w.restocked patterns files).config =
      c.expand s.store w.config := by
    simp only [Chunk.expand, Workspace.restocked, Unfolding.render_patterns]
  rw [render, hexpand]
  rfl

theorem tangleFiles_restocked (s : Session) (w : Workspace) (patterns : List Text)
    (files : List (Path × Text)) (d : Disk) (chunks : List Chunk) (t : Tangling) :
    s.tangleFiles (w.restocked patterns files) d chunks t = s.tangleFiles w d chunks t := by
  induction chunks generalizing t with
  | nil => rfl
  | cons c more ih =>
    simp only [tangleFiles, render_restocked, ih]
    rfl

end Session

namespace Workspace

variable {w : Workspace} {files : List (Path × Text)}

/-- Tangling depends on the texts that are read, and not on the patterns. -/
theorem tangle_restocked (hlib : w.library = (Shelf.ofList files).library) (patterns : List Text)
    (d : Disk) (documents : List Path) :
    (w.restocked patterns files).tangle d documents = w.tangle d documents := by
  simp only [tangle, Session.tangle, Session.tangleFiles_restocked, Session.load, hlib]
  rfl

section Canonical

variable (hlib : w.library = (Shelf.ofList files).library) (hd : Shelf.Distinct files)
  (hp : ∀ pattern ∈ w.config.sourcePatterns, ∃ tokens, Glob.parse pattern = .ok tokens)
include hlib hd hp

/-- The same patterns, in any order and any number, find the same documents. -/
theorem documents_restocked {patterns : List Text} {files' : List (Path × Text)}
    (hpatterns : ∀ pattern, pattern ∈ patterns ↔ pattern ∈ w.config.sourcePatterns)
    (hfiles : files'.Perm files) : (w.restocked patterns files').documents = w.documents := by
  obtain ⟨docs, hdocs, ho, hmem⟩ := documents_of_shelf hlib hd hp
  obtain ⟨docs', hdocs', ho', hmem'⟩ := documents_of_shelf (w := w.restocked patterns files') rfl
    (hd.perm hfiles.symm) fun pattern h => hp pattern ((hpatterns pattern).1 h)
  have heq : docs' = docs := by
    refine Path.eq_of_pairwise_before ho' ho fun p => ?_
    rw [hmem', hmem, (hfiles.map _).mem_iff]
    simp only [restocked, hpatterns]
  rw [hdocs, hdocs', heq]

/-- If documents are held in memory, they are strictly increasing, and are the paths given
    that some pattern matches; neither they nor what is tangled from them depend on the order
    or the number of the patterns, or on the order of the texts. A list of paths selects
    documents if each path names one, and then gives exactly those that are named, strictly
    increasing, whatever the order, the number or the spelling of the paths; or else the
    first path that names none is the error. A relative path may be spelled as one that is
    taken from the input directory. -/
theorem documents_canonical :
    ∃ docs, (w.documents = .ok docs ∧ docs.Pairwise Path.Before ∧
        ∀ p, p ∈ docs ↔ p ∈ files.map (·.1) ∧
          ∃ pattern ∈ w.config.sourcePatterns, Glob.Matches pattern p) ∧
      (∀ patterns files', (∀ pattern, pattern ∈ patterns ↔ pattern ∈ w.config.sourcePatterns) →
        files'.Perm files → (w.restocked patterns files').documents = .ok docs ∧
          ∀ d, (w.restocked patterns files').tangleAll d = w.tangleAll d) ∧
      (∀ paths, ((∃ chosen, w.select paths = .ok chosen) ↔
          ∀ path ∈ paths, ∃ doc ∈ docs, w.Names path doc) ∧
        (∀ chosen, w.select paths = .ok chosen → chosen.Pairwise Path.Before ∧
          (∀ doc, doc ∈ chosen ↔ doc ∈ docs ∧ ∃ path ∈ paths, w.Names path doc) ∧
          ∀ paths', (∀ cs, cs ∈ paths'.map w.within ↔ cs ∈ paths.map w.within) →
            w.select paths' = .ok chosen) ∧
        ∀ e, w.select paths = .error e ↔
          ∃ front path back, paths = front ++ path :: back ∧
            (∀ p ∈ front, ∃ doc ∈ docs, w.Names p doc) ∧ (∀ doc ∈ docs, ¬w.Names path doc) ∧
            e = .notDocument path) ∧
      (w.inputDir.isAbsolute → ∀ path, path.lead = none →
        w.within (w.inputDir.join path) = w.within path) := by
  obtain ⟨docs, hdocs, ho, hmem⟩ := documents_of_shelf hlib hd hp
  refine ⟨docs, ⟨hdocs, ho, hmem⟩, fun patterns files' hpatterns hfiles => ?_, fun paths => ?_,
    fun ha path hlead => within_join ha hlead⟩
  · have hsame := documents_restocked hlib hd hp hpatterns hfiles
    refine ⟨hsame.trans hdocs, fun d => ?_⟩
    have hlib' : w.library = (Shelf.ofList files').library := by
      rw [hlib, Shelf.ofList_congr hd hfiles]
    rw [tangleAll, tangleAll, hsame]
    simp only [tangle_restocked hlib']
  · refine ⟨exists_select_iff hdocs ho, fun chosen hs => ?_, fun e => select_eq_error_iff hdocs ho⟩
    obtain ⟨hchosen, hnamed⟩ := mem_select hdocs ho hs
    exact ⟨hchosen, hnamed, fun paths' hw => select_congr hdocs ho hs hw⟩

end Canonical

/-- Two texts on a shelf, and two patterns that both match the second one. -/
def sample : Workspace where
  config := { sourcePatterns := ["*.md".toList, "a*".toList] }
  library := (Shelf.ofList [(.ofString "b.md", []), (.ofString "a.md", [])]).library
  inputDir := .ofString "/work"
  outputDir := .ofString "/work"

theorem documents_sample :
    sample.documents = .ok [.ofString "a.md", .ofString "b.md"] ∧
      sample.select [.ofString "/work/b.md", .ofString "a.md", .ofString "b.md"] =
        .ok [.ofString "a.md", .ofString "b.md"] ∧
      sample.select [.ofString "a.md", .ofString "c.md", .ofString "d.md"] =
        .error (.notDocument (.ofString "c.md")) := by
  have hparse : Glob.parse "*.md".toList = .ok [.sequence, .char '.', .char 'm', .char 'd'] := by
    cbv
  have hparse' : Glob.parse "a*".toList = .ok [.char 'a', .sequence] := by
    cbv
  obtain ⟨docs, ⟨hdocs, ho, hmem⟩, -, hselect, -⟩ :=
    documents_canonical (w := sample) rfl (by decide)
      (List.forall_mem_cons.2 ⟨⟨_, hparse⟩, List.forall_mem_singleton.2 ⟨_, hparse'⟩⟩)
  obtain rfl : docs = [.ofString "a.md", .ofString "b.md"] := by
    refine Path.eq_of_pairwise_before ho (by decide) fun p => ?_
    have hmatches : p ∈ [.ofString "b.md", .ofString "a.md"] →
        ∃ pattern ∈ sample.config.sourcePatterns, Glob.Matches pattern p := by
      intro hp
      refine ⟨_, List.mem_cons_self, _, hparse, ?_⟩
      revert p
      decide
    rw [hmem]
    exact (and_iff_left_of_imp hmatches).trans (List.Perm.swap _ _ []).mem_iff
  refine ⟨hdocs, ?_, ((hselect _).2.2 _).2
    ⟨[.ofString "a.md"], _, _, rfl, by decide, by decide, rfl⟩⟩
  obtain ⟨chosen, hchosen⟩ := (hselect [.ofString "/work/b.md", .ofString "a.md",
    .ofString "b.md"]).1.2 (by decide)
  obtain ⟨ho', hmem', -⟩ := (hselect _).2.1 chosen hchosen
  rw [hchosen, Path.eq_of_pairwise_before ho' ho fun p => ?_]
  refine (hmem' p).trans (and_iff_left_of_imp ?_)
  revert p
  decide

end Workspace

end Tangle
