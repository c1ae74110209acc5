import Tangle.Disk.Writing
import Mathlib.Data.List.Basic

/-!
# Places on a disk

A path leads to a *place*, the route that its names give from where it starts, whatever
there is on the disk (`Disk.place`). If a path is followed at all, it is followed to its
place (`Disk.walk_eq_ok`), and it still is if all directories stay
(`Disk.walk_of_keeps`). So what a path reads is what is at its place, as long as the
directories on the way stay (`Disk.read_of_keeps`).

The operations that write are told by what they do to the entries:

* `Disk.makeDirectory` adds a directory at the place of its path, and
  `Disk.makeDirectories` adds some at the places of the path and its ancestors
  (`Disk.makeDirectories_adds`);
* `Disk.replaceFile` changes the entry at the place of its path to a file with the
  content, and nothing else, if there is no file under the temporary name
  (`Disk.replaceFile_eq_ok`).
-/

namespace Tangle.Disk

/-! ## Entries -/

theorem lookup_map_replace (entries : List (Route × Entry)) (r q : Route) (e : Entry) :
    (entries.map fun entry => if entry.1 = r then (r, e) else entry).lookup q =
      if q = r then (entries.lookup q).map fun _ => e else entries.lookup q := by
  induction entries with
  | nil => simp
  | cons entry entries ih =>
    obtain ⟨place, there⟩ := entry
    rw [List.map_cons, List.lookup_cons]
    by_cases hp : place = r <;> by_cases hq : q = place <;>
      simp_all [List.lookup_cons, beq_eq_false_iff_ne.2]

/-- Another entry at a route is found there, and nothing else changes. -/
theorem get?_set (d : Disk) {r : Route} (hr : r ≠ []) (e : Entry) (q : Route) :
    (d.set r e).get? q = if q = r then some e else d.get? q := by
  by_cases hq : q = []
  · subst hq
    simp [get?, Ne.symm hr]
  · have hlookup : (d.set r e).entries.lookup q =
        if q = r then some e else d.entries.lookup q := by
      rw [set]
      split
      · rename_i hsome
        rw [lookup_map_replace]
        by_cases hqr : q = r
        · subst hqr
          obtain ⟨old, hold⟩ := Option.isSome_iff_exists.1 hsome
          simp [hold]
        · simp [hqr]
      · rename_i hnone
        rw [List.lookup_append]
        by_cases hqr : q = r
        · subst hqr
          rw [Option.not_isSome_iff_eq_none.1 hnone]
          simp
        · have hne : (q == r) = false := beq_eq_false_iff_ne.2 hqr
          simp [List.lookup_cons, hqr, hne]
    rw [get?, get?, if_neg hq, if_neg hq, hlookup]

/-- An entry that is removed is not found, and nothing else changes. -/
theorem get?_erase (d : Disk) {r : Route} (hr : r ≠ []) (q : Route) :
    (d.erase r).get? q = if q = r then none else d.get? q := by
  by_cases hq : q = []
  · subst hq
    simp [get?, Ne.symm hr]
  · have hlookup (entries : List (Route × Entry)) :
        (entries.filter fun entry => entry.1 != r).lookup q =
          if q = r then none else entries.lookup q := by
      induction entries with
      | nil => simp
      | cons entry entries ih =>
        obtain ⟨place, there⟩ := entry
        by_cases hp : place = r
        · by_cases hqr : q = r
          · simpa [hp, hqr] using ih
          · simpa [hp, hqr, List.lookup_cons, beq_eq_false_iff_ne.2 hqr] using ih
        · by_cases hqp : q = place <;> simp_all [List.lookup_cons, beq_eq_false_iff_ne.2]
    rw [get?, get?, if_neg hq, if_neg hq]
    exact hlookup d.entries

/-- An entry that is put at a free place and moved on from there is found where it was
    moved to, and nothing else changes. -/
theorem get?_move (d : Disk) {source target : Route} (hs : source ≠ []) (ht : target ≠ [])
    (hfree : d.get? source = none) (e : Entry) (q : Route) :
    (((d.set source e).erase source).set target e).get? q =
      if q = target then some e else d.get? q := by
  rw [get?_set _ ht, get?_erase _ hs, get?_set _ hs]
  by_cases hq : q = source
  · rw [hq, if_pos rfl, hfree]
  · rw [if_neg hq, if_neg hq]

/-! ## Places -/

/-- Where a name leads from a place. -/
def step (here : Route) (name : Text) : Route :=
  if name = ['.'] then here else if name = ['.', '.'] then here.dropLast else here ++ [name]

/-- Where names lead from a place. -/
def follow (here : Route) (path : List Text) : Route := path.foldl step here

/-- Where a path leads. -/
def place (d : Disk) (p : Path) : Route := follow (d.start p) (names p)

/-- All directories of a disk are directories of the other, where paths start at the same
    places. -/
structure Keeps (d d' : Disk) : Prop where
  /-- The working directory is the same. -/
  cwd : d'.cwd = d.cwd
  /-- The directories stay. -/
  directory : ∀ r, d.get? r = some .directory → d'.get? r = some .directory

variable {d d' d'' : Disk} {p : Path} {here r : Route} {path : List Text}

namespace Keeps

theorem refl (d : Disk) : d.Keeps d := ⟨rfl, fun _ h => h⟩

theorem trans (h : d.Keeps d') (h' : d'.Keeps d'') : d.Keeps d'' :=
  ⟨h'.cwd.trans h.cwd, fun r hr => h'.directory r (h.directory r hr)⟩

theorem start (h : d.Keeps d') (p : Path) : d'.start p = d.start p := by
  rw [Disk.start, Disk.start, h.cwd]

theorem place (h : d.Keeps d') (p : Path) : d'.place p = d.place p := by
  rw [Disk.place, Disk.place, h.start]

end Keeps

/-- A directory with a name in it is followed by the name. -/
theorem walk_cons_eq_ok_iff {name : Text} :
    d.walk here (name :: path) = .ok r ↔
      d.get? here = some .directory ∧
        (name = ['.'] ∨ name = ['.', '.'] ∨ Text.bytes name ≤ 255) ∧
        d.walk (step here name) path = .ok r := by
  rw [walk, step]
  cases d.get? here with
  | none => simp
  | some e =>
    cases e with
    | file | binary => simp
    | directory =>
      by_cases h1 : name = ['.']
      · simp [h1]
      · by_cases h2 : name = ['.', '.']
        · simp [h2]
        · by_cases h3 : 255 < Text.bytes name
          · simp [h1, h2, h3, Nat.not_le.2 h3]
          · simp [h1, h2, h3, Nat.le_of_not_lt h3]

/-- Names that are followed lead where they lead. -/
theorem walk_eq_ok (h : d.walk here path = .ok r) : r = follow here path := by
  induction path generalizing here with
  | nil =>
    cases h
    rfl
  | cons name path ih => exact ih (walk_cons_eq_ok_iff.1 h).2.2

/-- Names that are followed are followed on as long as the directories stay. -/
theorem walk_of_keeps (hk : d.Keeps d') (h : d.walk here path = .ok r) :
    d'.walk here path = .ok r := by
  induction path generalizing here with
  | nil => exact h
  | cons name path ih =>
    obtain ⟨hdir, hname, hrest⟩ := walk_cons_eq_ok_iff.1 h
    exact walk_cons_eq_ok_iff.2 ⟨hk.directory here hdir, hname, ih hrest⟩

theorem walk_append_eq_ok_iff {more : List Text} :
    d.walk here (path ++ more) = .ok r ↔
      ∃ q, d.walk here path = .ok q ∧ d.walk q more = .ok r := by
  induction path generalizing here with
  | nil => simp [walk]
  | cons name path ih => simp [walk_cons_eq_ok_iff, ih, and_assoc]

/-! ## Reading -/

/-- A path reads the file at its place, if it can be followed. -/
theorem read_eq_ok_iff {t : Text} :
    d.read p = .ok t ↔
      check p = .ok () ∧ d.walk (d.start p) (names p) = .ok (d.place p) ∧
        d.get? (d.place p) = some (.file t) ∧ endsOpen p = false := by
  rw [read, locate]
  cases hc : check p with
  | error fault => simp [bind, Except.bind]
  | ok =>
    cases hw : d.walk (d.start p) (names p) with
    | error fault => simp [bind, Except.bind]
    | ok r =>
      obtain rfl : r = d.place p := walk_eq_ok hw
      cases hg : d.get? (d.place p) with
      | none => simp [bind, Except.bind, hg]
      | some e =>
        cases e <;> cases ho : endsOpen p <;> simp [bind, Except.bind, hg]

/-- What a path reads stays if its file and all directories stay. -/
theorem read_of_keeps (hk : d.Keeps d') {t : Text} (h : d.read p = .ok t)
    (hplace : d'.get? (d.place p) = d.get? (d.place p)) : d'.read p = .ok t := by
  obtain ⟨hcheck, hwalk, hfile, hopen⟩ := read_eq_ok_iff.1 h
  refine read_eq_ok_iff.2 ⟨hcheck, ?_, ?_, hopen⟩
  · rw [hk.start, hk.place]
    exact walk_of_keeps hk hwalk
  · rw [hk.place, hplace, hfile]

/-! ## Writing -/

/-- The path names an entry, which may be there or not, of a directory that is there. -/
def Admits (d : Disk) (p : Path) : Prop :=
  check p = .ok () ∧ ∃ front name parent, names p = front ++ [name] ∧
    (name ≠ ['.'] ∧ name ≠ ['.', '.'] ∧ Text.bytes name ≤ 255) ∧
    d.walk (d.start p) front = .ok parent ∧ d.get? parent = some .directory ∧
    d.place p = parent ++ [name]

theorem Admits.place_ne_nil (h : d.Admits p) : d.place p ≠ [] := by
  obtain ⟨-, _, _, _, -, -, -, -, hplace⟩ := h
  rw [hplace]
  exact List.concat_ne_nil _ _

theorem Admits.of_keeps (hk : d.Keeps d') (h : d.Admits p) : d'.Admits p := by
  obtain ⟨hcheck, front, name, parent, hnames, hname, hwalk, hdir, hplace⟩ := h
  refine ⟨hcheck, front, name, parent, hnames, hname, ?_, hk.directory _ hdir, ?_⟩
  · rw [hk.start]
    exact walk_of_keeps hk hwalk
  · rw [hk.place, hplace]

/-- A path to a file in a directory that is there reads that file. -/
theorem Admits.read (h : d.Admits p) {t : Text} (hfile : d.get? (d.place p) = some (.file t))
    (hopen : endsOpen p = false) : d.read p = .ok t := by
  obtain ⟨hcheck, front, name, parent, hnames, ⟨h1, h2, h3⟩, hwalk, hdir, hplace⟩ := h
  refine read_eq_ok_iff.2 ⟨hcheck, ?_, hfile, hopen⟩
  rw [hnames, walk_append_eq_ok_iff]
  refine ⟨parent, hwalk, walk_cons_eq_ok_iff.2 ⟨hdir, .inr (.inr h3), ?_⟩⟩
  rw [hplace, step, if_neg h1, if_neg h2]
  rfl

/-- Two operations succeed together exactly if both do. -/
theorem bind_eq_ok_iff {α β : Type} {x : Except Fault α} {f : α → Except Fault β} {b : β} :
    x >>= f = .ok b ↔ ∃ a, x = .ok a ∧ f a = .ok b := by
  cases x <;> simp [bind, Except.bind]

theorem locateDirectory_eq_ok_iff :
    d.locateDirectory here path = .ok r ↔
      d.walk here path = .ok r ∧ d.get? r = some .directory := by
  rw [locateDirectory, bind_eq_ok_iff]
  constructor
  · rintro ⟨q, hwalk, h⟩
    split at h <;> cases h
    exact ⟨hwalk, ‹_›⟩
  · rintro ⟨hwalk, hdir⟩
    exact ⟨r, hwalk, by rw [hdir]⟩

/-- What all operations that write look at first. -/
theorem admits_of_locateDirectory {name : Text} {parent : Route} (hcheck : check p = .ok ())
    (hlast : (names p).getLast? = some name)
    (hdir : d.locateDirectory (d.start p) (names p).dropLast = .ok parent)
    (hname : ¬(name = ['.'] ∨ name = ['.', '.'])) (hbytes : ¬255 < Text.bytes name) :
    d.Admits p ∧ d.place p = parent ++ [name] := by
  obtain ⟨hwalk, hdirectory⟩ := locateDirectory_eq_ok_iff.1 hdir
  obtain ⟨h1, h2⟩ := not_or.1 hname
  obtain ⟨front, hnames⟩ := List.getLast?_eq_some_iff.1 hlast
  rw [hnames, List.dropLast_concat] at hwalk
  have hplace : d.place p = parent ++ [name] := by
    have hparent : parent = front.foldl step (d.start p) := walk_eq_ok hwalk
    rw [place, follow, hnames, List.foldl_append, ← hparent]
    simp [step, h1, h2]
  exact ⟨⟨hcheck, front, name, parent, hnames, ⟨h1, h2, Nat.le_of_not_lt hbytes⟩, hwalk,
    hdirectory, hplace⟩, hplace⟩

/-- Making a directory adds one, at the place of the path. -/
theorem makeDirectory_eq_ok (h : d.makeDirectory p = .ok d') :
    d.Admits p ∧ d.get? (d.place p) = none ∧ d' = d.set (d.place p) .directory := by
  rw [makeDirectory] at h
  obtain ⟨_, hcheck, h⟩ := bind_eq_ok_iff.1 h
  split at h
  · cases h
  · rename_i name hlast
    obtain ⟨parent, hdir, h⟩ := bind_eq_ok_iff.1 h
    split_ifs at h with hname hbytes hnone
    obtain ⟨hadmits, hplace⟩ := admits_of_locateDirectory hcheck hlast hdir hname hbytes
    cases h
    rw [hplace]
    exact ⟨hadmits, Option.not_isSome_iff_eq_none.1 hnone, rfl⟩

/-- Writing a file puts it at the place of the path, where no directory is. -/
theorem writeFile_eq_ok {content : Text} (h : d.writeFile p content = .ok (d', r)) :
    d.Admits p ∧ r = d.place p ∧ d.get? r ≠ some .directory ∧ d' = d.set r (.file content) := by
  rw [writeFile] at h
  obtain ⟨_, hcheck, h⟩ := bind_eq_ok_iff.1 h
  split at h
  · cases h
  · rename_i name hlast
    obtain ⟨parent, hdir, h⟩ := bind_eq_ok_iff.1 h
    split_ifs at h with hname hbytes hdirectory
    have hname : ¬(name = ['.'] ∨ name = ['.', '.']) := fun e => hname (e.imp_right .inl)
    obtain ⟨hadmits, hplace⟩ := admits_of_locateDirectory hcheck hlast hdir hname hbytes
    cases h
    exact ⟨hadmits, hplace.symm, hdirectory, rfl⟩

/-- Moving a file puts it at the place of the path, where no directory is. -/
theorem moveFile_eq_ok {source : Route} (h : d.moveFile source p = .ok d') :
    d.Admits p ∧ endsOpen p = false ∧ d.get? (d.place p) ≠ some .directory ∧
      ∃ e, d.get? source = some e ∧ d' = (d.erase source).set (d.place p) e := by
  rw [moveFile] at h
  obtain ⟨_, hcheck, h⟩ := bind_eq_ok_iff.1 h
  split at h
  · cases h
  · rename_i name hlast
    obtain ⟨parent, hdir, h⟩ := bind_eq_ok_iff.1 h
    split_ifs at h with hname hbytes hopen
    obtain ⟨hadmits, hplace⟩ := admits_of_locateDirectory hcheck hlast hdir hname hbytes
    rw [hplace]
    split at h
    · cases h
    · rename_i e hsource hdirectory
      cases h
      exact ⟨hadmits, by simpa using hopen, hdirectory, e, hsource, rfl⟩
    · cases h

/-! ## Making directories -/

/-- The other disk has further directories, at some of the places. -/
structure Adds (d d' : Disk) (places : List Route) : Prop where
  /-- The working directory is the same. -/
  cwd : d'.cwd = d.cwd
  /-- The process is the same. -/
  process : d'.process = d.process
  /-- No temporary name was given out. -/
  issued : d'.issued = d.issued
  /-- Entries stay, and those that come are directories. -/
  get? : ∀ r, d'.get? r = d.get? r ∨
    d.get? r = none ∧ d'.get? r = some .directory ∧ r ∈ places

namespace Adds

variable {places places' : List Route}

theorem refl (d : Disk) (places : List Route) : d.Adds d places :=
  ⟨rfl, rfl, rfl, fun _ => .inl rfl⟩

theorem keeps (h : d.Adds d' places) : d.Keeps d' := by
  refine ⟨h.cwd, fun r hr => ?_⟩
  rcases h.get? r with e | ⟨hnone, -, -⟩
  · rw [e, hr]
  · cases hnone.symm.trans hr

theorem trans (h : d.Adds d' places) (h' : d'.Adds d'' places) : d.Adds d'' places := by
  refine ⟨h'.cwd.trans h.cwd, h'.process.trans h.process, h'.issued.trans h.issued, fun r => ?_⟩
  rcases h'.get? r with e | ⟨hnone, hdir, hr⟩
  · rw [e]
    exact h.get? r
  · -- What comes last was not there before.
    rcases h.get? r with e | ⟨-, hsome, -⟩
    · exact .inr ⟨e ▸ hnone, hdir, hr⟩
    · cases hnone.symm.trans hsome

theorem mono (h : d.Adds d' places) (hsub : places ⊆ places') : d.Adds d' places' :=
  ⟨h.cwd, h.process, h.issued, fun r =>
    (h.get? r).imp_right fun ⟨hnone, hdir, hr⟩ => ⟨hnone, hdir, hsub hr⟩⟩

end Adds

theorem makeDirectory_adds (h : d.makeDirectory p = .ok d') : d.Adds d' [d.place p] := by
  obtain ⟨hadmits, hnone, rfl⟩ := makeDirectory_eq_ok h
  refine ⟨rfl, rfl, rfl, fun r => ?_⟩
  rw [get?_set d hadmits.place_ne_nil]
  by_cases hr : r = d.place p
  · subst hr
    exact .inr ⟨hnone, if_pos rfl, List.mem_singleton_self _⟩
  · exact .inl (if_neg hr)

/-- The places of a path and of its ancestors. -/
def above (d : Disk) (p : Path) : List Route := p.ancestors.map d.place

theorem above_of_parent? {q : Path} (h : p.parent? = some q) :
    d.above p = d.place p :: d.above q := by
  rw [above, Path.ancestors_of_parent? h]
  rfl

theorem place_mem_above (d : Disk) (p : Path) : d.place p ∈ d.above p := by
  rw [above, Path.ancestors]
  split <;> exact List.mem_cons_self

/-- Making a directory and those above it adds directories there, also if it fails. -/
theorem makeDirectories_adds (d : Disk) (p : Path) :
    d.Adds (d.makeDirectories p).1 (d.above p) := by
  fun_induction makeDirectories d p with
  | case1 | case3 | case7 => exact .refl d _
  | case2 q _ d' hmake =>
    exact (makeDirectory_adds hmake).mono (by simpa using d.place_mem_above q)
  | case4 q _ _ parent hparent _ d' fault hmake ih =>
    rw [hmake] at ih
    exact ih.mono (above_of_parent? hparent ▸ List.subset_cons_self _ _)
  | case5 q _ _ parent hparent _ d' hmake d'' hmake' ih =>
    rw [hmake] at ih
    have h' := makeDirectory_adds hmake'
    rw [ih.keeps.place] at h'
    refine (ih.mono ?_).trans (h'.mono (by simpa using d.place_mem_above q))
    exact above_of_parent? hparent ▸ List.subset_cons_self _ _
  | case6 q _ _ parent hparent _ d' hmake fault hmake' ih =>
    rw [hmake] at ih
    exact ih.mono (above_of_parent? hparent ▸ List.subset_cons_self _ _)

/-! ## Replacing a file -/

/-- The place of the temporary file for a path. -/
def temporary (d : Disk) (p : Path) : Route := d.place ((home p).child d.temporaryName)

/-- The other disk has a file with the content at the path, and differs in nothing else
    but, perhaps, the temporary names given out. -/
structure Replaces (d d' : Disk) (p : Path) (content : Text) : Prop where
  /-- All directories stay. -/
  keeps : d.Keeps d'
  /-- The process is the same. -/
  process : d'.process = d.process
  /-- The file has the content. -/
  read : d'.read p = .ok content
  /-- All other entries stay. -/
  get? : ∀ r, r ≠ d.place p → d'.get? r = d.get? r

/-- A file that is written at a free place and moved on is only where it was moved to. -/
theorem replaces_of_moveFile {content : Text} {source : Route} (hne : source ≠ [])
    (hfree : d.get? source = none)
    (h : (d.set source (.file content)).moveFile source p = .ok d') :
    d.Replaces d' p content ∧ d'.issued = d.issued := by
  obtain ⟨hadmits, hopen, hdir, e, hfile, hd'⟩ := moveFile_eq_ok h
  rw [get?_set d hne, if_pos rfl] at hfile
  cases hfile
  have hmoved (r : Route) :
      d'.get? r = if r = d.place p then some (.file content) else d.get? r :=
    hd' ▸ get?_move d hne hadmits.place_ne_nil hfree (.file content) r
  have hwritten : d.Keeps (d.set source (.file content)) := by
    refine ⟨rfl, fun r hr => (get?_set d hne _ r).trans ((if_neg ?_).trans hr)⟩
    rintro rfl
    cases hfree.symm.trans hr
  have hkeeps : d.Keeps d' := by
    refine ⟨hd' ▸ rfl, fun r hr => (hmoved r).trans ((if_neg ?_).trans hr)⟩
    rintro rfl
    exact hdir (hwritten.directory _ hr)
  -- What was written is no directory, so the path was to be followed before.
  have hback : (d.set source (.file content)).Keeps d := by
    refine ⟨rfl, fun r hr => ?_⟩
    rw [get?_set d hne] at hr
    split at hr
    · cases hr
    · exact hr
  have hread : d'.read p = .ok content :=
    ((hadmits.of_keeps hback).of_keeps hkeeps).read
      ((hmoved _).trans (if_pos (hkeeps.place p))) hopen
  exact ⟨⟨hkeeps, hd' ▸ rfl, hread, fun r hr => (hmoved r).trans (if_neg hr)⟩, hd' ▸ rfl⟩

/-- A file is replaced as a whole, and its temporary file is gone, unless there was a file
    under the temporary name. -/
theorem replaceFile_eq_ok {content : Text} (h : d.replaceFile p content = (d', .ok ()))
    (hfree : d.get? (d.temporary p) = none ∨ d.get? (d.temporary p) = some .directory) :
    d.Replaces d' p content ∧ d'.issued = d.issued + 1 := by
  rw [replaceFile] at h
  split at h
  · cases h
  · rename_i written source hwrite
    obtain ⟨hadmits, rfl, hdir, rfl⟩ := writeFile_eq_ok hwrite
    split at h
    · cases h
    · rename_i moved hmove
      cases h
      -- A directory under the temporary name would not have been written to.
      obtain ⟨hr, hissued⟩ := replaces_of_moveFile (d := { d with issued := d.issued + 1 })
        hadmits.place_ne_nil (hfree.resolve_right hdir) hmove
      exact ⟨⟨⟨hr.keeps.cwd, hr.keeps.directory⟩, hr.process, hr.read, hr.get?⟩, hissued⟩

end Tangle.Disk
