import Tangle.Proofs.Places
import Tangle.Proofs.Targets

/-!
# Performing a plan

Actions are performed one after the other, each of them with a temporary file and, if it
creates its file, with new directories above it. If no temporary file is put where
something is, or is to be written, then no action disturbs another: after a run that
succeeds, each file has its content, there are new directories above some of them, and
nothing else has changed (`Disk.Performs`, `Plan.performAll_performs`).

So a plan is performed once: if a session is tangled again afterwards, all its files have
their content already (`Session.tangle_after_perform`). The paths of the plan must not be
alike for this. If the output directory is the empty path, this is not enough: there `a`
and `./a` are not alike, but lead to one file, which has the content of the second after
the plan is performed, and is to be overwritten again (`Session.tangle_twice`). So paths
that are alike up to a `.` in front are excluded as well there. In all other directories
these are alike anyway (`Session.pairwise_alike_iff`), and in each directory they are the
ones that lead to the same place (`Session.places_nodup_iff`).
-/

namespace Tangle

namespace Disk

/-- The places of the directories above a path. -/
def parents (d : Disk) (p : Path) : List Route := (d.above p).tail

/-- The places of the temporary files for actions. Each of them takes the next name. -/
def temporaries (d : Disk) : List Action → List Route
  | [] => []
  | a :: more => d.temporary a.path :: temporaries { d with issued := d.issued + 1 } more

/-- The other disk has the files of the actions with their contents, perhaps new directories
    above them, and differs in nothing else but the temporary names given out. -/
structure Performs (d d' : Disk) (actions : List Action) : Prop where
  /-- All directories stay. -/
  keeps : d.Keeps d'
  /-- The process is the same. -/
  process : d'.process = d.process
  /-- Each action took a temporary name. -/
  issued : d'.issued = d.issued + actions.length
  /-- The files have their contents. -/
  read : ∀ a ∈ actions, d'.read a.path = .ok a.content
  /-- Other entries stay, and those that come are directories. -/
  get? : ∀ r, r ∉ actions.map (d.place ·.path) → d'.get? r = d.get? r ∨
    d.get? r = none ∧ d'.get? r = some .directory ∧ ∃ a ∈ actions, r ∈ d.parents a.path

variable {d d' d'' : Disk} {a : Action} {actions : List Action}

/-- Where temporary files are put depends on the working directory and on the names. -/
theorem temporary_congr (hcwd : d'.cwd = d.cwd) (hprocess : d'.process = d.process)
    (hissued : d'.issued = d.issued) (p : Path) : d'.temporary p = d.temporary p := by
  have hname : d'.temporaryName = d.temporaryName := by
    unfold temporaryName
    rw [hprocess, hissued]
  have hstart (q : Path) : d'.start q = d.start q := by
    rw [start, start, hcwd]
  rw [temporary, temporary, hname, place, place, hstart]

theorem temporaries_congr (hcwd : d'.cwd = d.cwd) (hprocess : d'.process = d.process)
    (hissued : d'.issued = d.issued) : d'.temporaries actions = d.temporaries actions := by
  induction actions generalizing d d' with
  | nil => rfl
  | cons a actions ih =>
    rw [temporaries, temporaries, temporary_congr hcwd hprocess hissued]
    congr 1
    exact ih hcwd hprocess (congrArg (· + 1) hissued)

theorem Adds.temporary {places : List Route} (h : d.Adds d' places) (p : Path) :
    d'.temporary p = d.temporary p :=
  temporary_congr h.cwd h.process h.issued p

/-- A path that reads a file has no free place. -/
theorem get?_ne_none_of_read {p : Path} {t : Text} (h : d.read p = .ok t) :
    d.get? (d.place p) ≠ none := by
  obtain ⟨-, -, hfile, -⟩ := read_eq_ok_iff.1 h
  rw [hfile]
  exact Option.some_ne_none _

/-- New directories, and then a new content for a file. -/
theorem Adds.performs {places : List Route} (h : d.Adds d' places)
    (h' : d'.Replaces d'' a.path a.content) (hissued : d''.issued = d'.issued + 1)
    (hplaces : places ⊆ d.parents a.path) : d.Performs d'' [a] := by
  refine ⟨h.keeps.trans h'.keeps, h'.process.trans h.process, ?_, ?_, fun r hr => ?_⟩
  · rw [hissued, h.issued, List.length_singleton]
  · exact fun b hb => List.mem_singleton.1 hb ▸ h'.read
  · have hne : r ≠ d'.place a.path := by
      rw [h.keeps.place]
      exact fun e => hr (e ▸ List.mem_singleton_self _)
    rw [h'.get? r hne]
    exact (h.get? r).imp_right fun ⟨hnone, hdir, hmem⟩ =>
      ⟨hnone, hdir, a, List.mem_singleton_self a, hplaces hmem⟩

namespace Performs

theorem nil (d : Disk) : d.Performs d [] :=
  ⟨.refl d, rfl, rfl, fun _ h => absurd h List.not_mem_nil, fun _ _ => .inl rfl⟩

/-- What a path reads stays if no action is at its place. -/
theorem read_of_notMem (h : d.Performs d' actions) {p : Path} {t : Text}
    (hread : d.read p = .ok t) (hp : d.place p ∉ actions.map (d.place ·.path)) :
    d'.read p = .ok t := by
  refine read_of_keeps h.keeps hread ?_
  rcases h.get? _ hp with heq | ⟨hnone, -⟩
  · exact heq
  · exact absurd hnone (get?_ne_none_of_read hread)

/-- The first action, and then those at other places. -/
theorem cons (h : d.Performs d' [a]) (h' : d'.Performs d'' actions)
    (ha : d.place a.path ∉ actions.map (d.place ·.path)) : d.Performs d'' (a :: actions) := by
  have hplace : d'.place = d.place := funext h.keeps.place
  have hparents : d'.parents = d.parents := by
    funext p
    rw [parents, parents, above, above, hplace]
  refine ⟨h.keeps.trans h'.keeps, h'.process.trans h.process, ?_, ?_, fun r hr => ?_⟩
  · rw [h'.issued, h.issued, List.length_singleton, List.length_cons, Nat.add_assoc, Nat.add_comm 1]
  · refine List.forall_mem_cons.2 ⟨?_, h'.read⟩
    refine h'.read_of_notMem (h.read a (List.mem_singleton_self a)) ?_
    rwa [hplace]
  · obtain ⟨hfirst, hrest⟩ := not_or.1 (mt List.mem_cons.2 hr)
    rcases h'.get? r (by rwa [hplace]) with heq | ⟨hnone, hdir, b, hb, hmem⟩
    · rw [heq]
      refine (h.get? r (by simpa using hfirst)).imp_right ?_
      rintro ⟨hnone, hdir, b, hb, hmem⟩
      exact ⟨hnone, hdir, b, List.mem_cons.2 (.inl (List.mem_singleton.1 hb)), hmem⟩
    · -- A directory that comes later was not there after the first action.
      rcases h.get? r (by simpa using hfirst) with heq | ⟨-, hdir', -⟩
      · exact .inr ⟨heq ▸ hnone, hdir, b, List.mem_cons_of_mem a hb, hparents ▸ hmem⟩
      · cases hnone.symm.trans hdir'

end Performs

end Disk

open Disk

variable {d d' : Disk} {a : Action} {actions : List Action}

/-- An action that succeeds does what it says, unless there is a file where its temporary
    file is put. -/
theorem Action.perform_performs (h : a.perform d = (d', .ok ()))
    (hfree : d.get? (d.temporary a.path) = none ∨
      d.get? (d.temporary a.path) = some .directory) : d.Performs d' [a] := by
  -- Without new directories, only the file is replaced.
  have hreplace (h : d.replaceFile a.path a.content = (d', .ok ())) : d.Performs d' [a] := by
    obtain ⟨hr, hissued⟩ := replaceFile_eq_ok h hfree
    exact (Adds.refl d []).performs hr hissued (List.nil_subset _)
  rw [perform] at h
  split at h
  · exact hreplace h
  · split at h
    · exact hreplace h
    · rename_i parent hparent
      split at h
      · cases h
      · rename_i made hmake
        have hadds := d.makeDirectories_adds parent
        rw [hmake] at hadds
        have hfree' : made.get? (made.temporary a.path) = none ∨
            made.get? (made.temporary a.path) = some .directory := by
          rw [hadds.temporary]
          rcases hadds.get? (d.temporary a.path) with heq | ⟨-, hdir, -⟩
          · rwa [heq]
          · exact .inr hdir
        obtain ⟨hr, hissued⟩ := replaceFile_eq_ok h hfree'
        refine hadds.performs hr hissued ?_
        rw [parents, above_of_parent? hparent]
        exact List.Subset.refl _

/-- Actions that succeed do what they say, if their files are at different places, and no
    temporary file is put where a file is or is to be written. -/
theorem Plan.performAll_performs (h : (performAll actions d).2.outcome = .ok ())
    (hplaces : (actions.map (d.place ·.path)).Nodup)
    (hfree : ∀ r ∈ d.temporaries actions, (d.get? r = none ∨ d.get? r = some .directory) ∧
      r ∉ actions.map (d.place ·.path)) : d.Performs (performAll actions d).1 actions := by
  -- The disk changes with each action. What was said of temporary files and places is said
  -- of the disk after the action, where a free place may have become a directory.
  induction actions generalizing d with
  | nil => exact .nil d
  | cons a actions ih =>
    obtain ⟨hfirst, hrest⟩ := List.forall_mem_cons.1 hfree
    obtain ⟨ha, hplaces⟩ := List.nodup_cons.1 hplaces
    rw [performAll] at h ⊢
    split at h
    · cases h
    · rename_i d' hperform
      have hstep : d.Performs d' [a] := Action.perform_performs hperform hfirst.1
      have hplace : d'.place = d.place := funext hstep.keeps.place
      have htemporaries : d'.temporaries actions =
          temporaries { d with issued := d.issued + 1 } actions :=
        temporaries_congr hstep.keeps.cwd hstep.process hstep.issued
      have hrun : d'.Performs (performAll actions d').1 actions := by
        refine ih h (hplace ▸ hplaces) fun r hr => ?_
        rw [htemporaries] at hr
        obtain ⟨hget, hnotMem⟩ := hrest r hr
        obtain ⟨hne, hnotMem⟩ := not_or.1 (mt List.mem_cons.2 hnotMem)
        refine ⟨?_, hplace ▸ hnotMem⟩
        -- The place is free, or the first action has made a directory there.
        rcases hstep.get? r (by simpa using hne) with heq | ⟨-, hdir, -⟩
        · rwa [heq]
        · exact .inr hdir
      exact hstep.cons hrun ha

/-! ## Places of targets -/

theorem Path.Component.ofPiece_injective : Function.Injective Path.Component.ofPiece := by
  intro x y h
  rw [ofPiece, ofPiece] at h
  split_ifs at h with hx hy hy
  · rw [hx, hy]
  · exact Path.Component.normal.inj h

namespace Disk

/-- The names of a path that is joined come after those of the other. -/
theorem names_append (s t : Text) : names ⟨s ++ '/' :: t⟩ = names ⟨s⟩ ++ names ⟨t⟩ := by
  rw [names, names, names, Text.split_append, List.filter_append]

/-- What is joined to a path leads on from the place of the path. -/
theorem place_join (d : Disk) {a b : Path} (hb : b.isAbsolute = false) :
    d.place (a.join b) = follow (d.place a) (names b) := by
  by_cases ha : a.text = []
  · -- The empty path leads to where all relative paths start.
    have hstart : d.start a = d.start b := by
      rw [start, start, Path.isAbsolute, ha, hb]
      rfl
    have hnames : names a = [] := by
      rw [names, ha]
      rfl
    rw [Path.join_of_text_eq_nil ha hb, place, place, hstart, hnames]
    rfl
  · obtain ⟨front, ht, hfront⟩ := Path.text_join ha hb
    have hnames : names a = names ⟨front⟩ := by
      rcases hfront with h | h
      · rw [names, h, names]
      · rw [names, h]
        exact (names_append front []).trans (List.append_nil _)
    have hstart : d.start (a.join b) = d.start a := by
      have hhead : (a.join b).text.head? = a.text.head? := by
        rcases hfront with h | h <;> rw [ht, h]
        · obtain ⟨c, r, rfl⟩ := List.exists_cons_of_ne_nil (h ▸ ha)
          rfl
        · cases front <;> rfl
      rw [start, start, Path.isAbsolute, hhead, Path.isAbsolute]
    rw [place, place, hstart, hnames, follow, follow, follow, ← List.foldl_append,
      ← names_append, ← ht]

/-- Without `..`, names lead further down only. -/
theorem follow_eq {here : Route} {path : List Text} (h : ['.', '.'] ∉ path) :
    follow here path = here ++ path.filter (· ≠ ['.']) := by
  induction path generalizing here with
  | nil => exact (List.append_nil here).symm
  | cons name path ih =>
    obtain ⟨hname, hpath⟩ := not_or.1 (mt List.mem_cons.2 h)
    have hrest : follow (step here name) path = step here name ++ path.filter (· ≠ ['.']) :=
      ih hpath
    refine hrest.trans ?_
    rw [step, if_neg (Ne.symm hname)]
    by_cases hdot : name = ['.'] <;> simp [hdot]

/-- The steps of a text are its names but for `.`. -/
theorem steps_eq (t : Text) :
    Path.steps t = ((names ⟨t⟩).filter (· ≠ ['.'])).map .ofPiece := by
  rw [Path.steps, names, List.filter_filter]
  congr 1
  refine List.filter_congr fun piece _ => ?_
  by_cases h1 : piece = [] <;> by_cases h2 : piece = ['.'] <;>
    simp [Path.ignorable, h1, h2, beq_eq_false_iff_ne.2, bne]

end Disk

/-- The two paths have the same components but, perhaps, for a `.` in front. -/
def Path.alikeUpToDot (p q : Path) : Bool :=
  p.components.filter (· ≠ .current) == q.components.filter (· ≠ .current)

namespace Workspace

variable {w : Workspace} {m n name : Name} {p q path : Path}

/-- The place of a target is that of the output directory, and then down by the name. -/
theorem place_target (h : w.target name = .ok path) :
    d.place path = d.place w.outputDir ++ (names ⟨name.text⟩).filter (· ≠ ['.']) := by
  have habs := not_isAbsolute_of_target h
  obtain ⟨⟨-, hall⟩, rfl⟩ := target_eq_ok_iff.1 h
  rw [place_join d habs, follow_eq]
  intro hmem
  have hparent : Path.Component.parent ∈ Path.steps name.text := by
    rw [steps_eq]
    exact List.mem_map.2 ⟨['.', '.'], List.mem_filter.2 ⟨hmem, rfl⟩, rfl⟩
  rw [Path.components_eq] at hall
  simpa [staysInside] using List.all_eq_true.1 hall _ (List.mem_append_right _ hparent)

/-- What a name has inside are its steps, but for a `.` in front. -/
theorem filter_inside (h : w.target name = .ok path) :
    (w.inside name).filter (· ≠ .current) = Path.steps name.text := by
  rw [← Path.filter_components (not_isAbsolute_of_target h), inside]
  split
  · rfl
  · rw [List.filter_filter]
    simp

/-- Targets are alike up to a `.` exactly if their names have the same steps. -/
theorem alikeUpToDot_target_iff (hm : w.target m = .ok p) (hn : w.target n = .ok q) :
    p.alikeUpToDot q ↔ Path.steps m.text = Path.steps n.text := by
  rw [Path.alikeUpToDot, beq_iff_eq, components_target hm, components_target hn,
    List.filter_append, List.filter_append, filter_inside hm, filter_inside hn,
    List.append_cancel_left_eq]

/-- Targets are at the same place exactly if they are alike up to a `.` in front. -/
theorem place_target_eq_iff (hm : w.target m = .ok p) (hn : w.target n = .ok q) :
    d.place p = d.place q ↔ p.alikeUpToDot q := by
  rw [alikeUpToDot_target_iff hm hn, place_target hm, place_target hn,
    List.append_cancel_left_eq, steps_eq, steps_eq,
    (List.map_injective_iff.2 Path.Component.ofPiece_injective).eq_iff]

/-- In an output directory that is not the empty path, no target starts with a `.` of its
    own. -/
theorem alike_iff_alikeUpToDot (hw : w.outputDir.text ≠ []) (hm : w.target m = .ok p)
    (hn : w.target n = .ok q) : p.alike q ↔ p.alikeUpToDot q := by
  rw [alike_target_iff hm hn, alikeUpToDot_target_iff hm hn, inside, inside, if_neg hw, if_neg hw,
    Path.filter_components (not_isAbsolute_of_target hm),
    Path.filter_components (not_isAbsolute_of_target hn)]

end Workspace

namespace Session

variable {s : Session} {w : Workspace} {t : Tangling}

/-- Each path of a plan is the target of a name. -/
theorem exists_target_of_mem_paths (h : (s.tangle w d).outcome = .ok t) :
    ∀ p ∈ t.plan.paths, ∃ name, w.target name = .ok p := by
  obtain ⟨targets, hfiles, hperm⟩ := planned_perm h
  have htargets : ∀ p ∈ targets, ∃ name, w.target name = .ok p :=
    (hfiles.forall_mem_iff fun c p hc => iff_of_true ⟨c.name, hc⟩ trivial).2 fun _ _ => trivial
  exact fun p hp => htargets p (hperm.mem_iff.1 hp)

/-- The files of a plan are at different places exactly if no two of its paths are alike up
    to a `.` in front. -/
theorem places_nodup_iff (h : (s.tangle w d).outcome = .ok t) :
    (t.plan.paths.map d.place).Nodup ↔ t.plan.paths.Pairwise fun p q => ¬p.alikeUpToDot q := by
  rw [List.Nodup, List.pairwise_map]
  refine List.Pairwise.iff_of_mem fun {p q} hp hq => not_congr ?_
  obtain ⟨m, hm⟩ := exists_target_of_mem_paths h p hp
  obtain ⟨n, hn⟩ := exists_target_of_mem_paths h q hq
  exact Workspace.place_target_eq_iff hm hn

/-- In an output directory that is not the empty path, no two paths of a plan are alike up to
    a `.` in front if no two of them are alike. -/
theorem pairwise_alike_iff (hw : w.outputDir.text ≠ []) (h : (s.tangle w d).outcome = .ok t) :
    (t.plan.paths.Pairwise fun p q => ¬p.alike q) ↔
      t.plan.paths.Pairwise fun p q => ¬p.alikeUpToDot q := by
  refine List.Pairwise.iff_of_mem fun {p q} hp hq => not_congr ?_
  obtain ⟨m, hm⟩ := exists_target_of_mem_paths h p hp
  obtain ⟨n, hn⟩ := exists_target_of_mem_paths h q hq
  exact Workspace.alike_iff_alikeUpToDot hw hm hn

/-- The entry of an output is its path if the file has the content, and otherwise an action
    that writes it. -/
theorem entry_cases (d : Disk) (o : Output) :
    o.entry d = .inr o.path ∧ d.read o.path = .ok o.content ∨
      ∃ manner, o.entry d = .inl ⟨manner, o.path, o.content⟩ := by
  rw [Output.entry]
  split
  · rename_i existing hread
    split
    · rename_i heq
      exact .inl ⟨rfl, heq ▸ hread⟩
    · exact .inr ⟨.overwrite, rfl⟩
  · exact .inr ⟨.create, rfl⟩

/-- Outputs that are there already are all unchanged. -/
theorem entries_of_read {outputs : List Output}
    (h : ∀ o ∈ outputs, d.read o.path = .ok o.content) :
    (outputs.filterMap fun o => (o.entry d).getLeft?) = [] ∧
      (outputs.filterMap fun o => (o.entry d).getRight?) = outputs.map (·.path) := by
  have hentry : ∀ o ∈ outputs, o.entry d = .inr o.path := by
    intro o ho
    rw [Output.entry, h o ho]
    exact if_pos rfl
  constructor
  · exact List.filterMap_eq_nil_iff.2 fun o ho => by rw [hentry o ho]; rfl
  · rw [← List.filterMap_eq_map]
    exact List.filterMap_congr fun o ho => by rw [hentry o ho]; rfl

/-- If a session is tangled, no two paths of the plan are alike (and, in the empty path as
    output directory, not up to a `.` in front either), no temporary file is put where
    something is or is to be written, and the plan is performed, then each file has the
    content of its chunk, nothing else has changed but for new directories above the files,
    and tangling once more finds all files unchanged. -/
theorem tangle_after_perform (s : Session) (w : Workspace) (d : Disk) (t : Tangling)
    (h : (s.tangle w d).outcome = .ok t)
    (hpaths : t.plan.paths.Pairwise fun p q => ¬p.alike q)
    (hempty : w.outputDir.text = [] → t.plan.paths.Pairwise fun p q => ¬p.alikeUpToDot q)
    (hfresh : ∀ r ∈ d.temporaries t.plan.actions,
      d.get? r = none ∧ r ∉ t.plan.paths.map d.place)
    (hperform : (t.plan.perform d).2.outcome = .ok ()) :
    ∃ outputs, List.Forall₂ (s.Yields w) s.store.files outputs ∧
      t.plan.paths.Perm (outputs.map (·.path)) ∧
      (∀ o ∈ outputs, (t.plan.perform d).1.read o.path = .ok o.content) ∧
      (∀ r, r ∉ t.plan.paths.map d.place →
        (t.plan.perform d).1.get? r = d.get? r ∨
          d.get? r = none ∧ (t.plan.perform d).1.get? r = some .directory ∧
            ∃ p ∈ t.plan.paths, r ∈ d.parents p) ∧
      (s.tangle w (t.plan.perform d).1).outcome =
        .ok ⟨⟨[], outputs.map (·.path)⟩, t.unresolved, t.files⟩ := by
  have hplaces : (t.plan.paths.map d.place).Nodup := by
    refine (places_nodup_iff h).2 ?_
    by_cases hw : w.outputDir.text = []
    · exact hempty hw
    · exact (pairwise_alike_iff hw h).1 hpaths
  obtain ⟨outputs, hyields, -, rfl⟩ := tangle_eq_ok_iff.1 h
  rw [Plan.paths, List.map_append, List.map_map] at hplaces
  obtain ⟨hactions, -, hapart⟩ := List.nodup_append.1 hplaces
  have hperforms := Plan.performAll_performs hperform hactions fun r hr => by
    obtain ⟨hnone, hnotMem⟩ := hfresh r hr
    rw [Plan.paths, List.map_append, List.map_map] at hnotMem
    exact ⟨.inl hnone, fun hmem => hnotMem (List.mem_append_left _ hmem)⟩
  have hread : ∀ o ∈ outputs, (Plan.performAll (outputs.filterMap fun o =>
      (o.entry d).getLeft?) d).1.read o.path = .ok o.content := by
    intro o ho
    rcases entry_cases d o with ⟨hentry, hread⟩ | ⟨manner, hentry⟩
    · -- A file that is not written is at another place than those that are.
      refine hperforms.read_of_notMem hread fun hmem => ?_
      refine hapart _ hmem _ (List.mem_map_of_mem ?_) rfl
      exact List.mem_filterMap.2 ⟨o, ho, by rw [hentry]; rfl⟩
    · refine hperforms.read ⟨manner, o.path, o.content⟩ ?_
      exact List.mem_filterMap.2 ⟨o, ho, by rw [hentry]; rfl⟩
  refine ⟨outputs, hyields, paths_perm d outputs, hread, fun r hr => ?_, ?_⟩
  · rw [Plan.paths, List.map_append, List.map_map] at hr
    refine (hperforms.get? r fun hmem => hr (List.mem_append_left _ hmem)).imp_right ?_
    rintro ⟨hnone, hdir, a, ha, hmem⟩
    exact ⟨hnone, hdir, a.path, List.mem_append_left _ (List.mem_map_of_mem ha), hmem⟩
  · refine tangle_eq_ok_iff.2 ⟨outputs, hyields, fun o ho => .inl ⟨_, hread o ho⟩, ?_⟩
    obtain ⟨hleft, hright⟩ := entries_of_read hread
    exact (congrArg₂ (fun actions unchanged => (⟨⟨actions, unchanged⟩, _, _⟩ : Tangling))
      hleft hright).symm

/-- Three file chunks without code, one of them for a directory below. -/
def threeFiles : Text := "@(a@) = c\n@\n@(b@) = c\n@\n@(n/c@) = c\n@\n".toList

/-- The session with the three file chunks. -/
def threeSession : Session := (parse {} ⟨['d']⟩ threeFiles).1

/-- The workspace of the document, without anchors. The output goes to the working
    directory. -/
def threeWorkspace : Workspace :=
  .new { annotation := .naked } (Shelf.library ⟨[(⟨['d']⟩, threeFiles)]⟩) ⟨[]⟩

/-- A disk with the first two files, of which the second one has another content. -/
def twoThere : Disk where
  entries := [([['o']], .directory), ([['o'], ['a']], .file []), ([['o'], ['b']], .file ['x'])]
  cwd := [['o']]

/-- The outputs of the three file chunks. -/
def threeOutputs : List Output :=
  [⟨.ofString "a", [], []⟩, ⟨.ofString "b", [], []⟩, ⟨.ofString "n/c", [], []⟩]

/-- What is planned for the three files. -/
def threeTangling : Tangling :=
  ⟨⟨[⟨.overwrite, .ofString "b", []⟩, ⟨.create, .ofString "n/c", []⟩], [.ofString "a"]⟩, [], 3⟩

theorem tangle_three :
    (threeSession.tangle threeWorkspace twoThere).outcome = .ok threeTangling := by
  have hfiles : threeSession.store.files =
      [bareFile "a" 1, bareFile "b" 3, bareFile "n/c" 5] := by decide
  have hread : twoThere.read (.ofString "a") = .ok [] ∧
      twoThere.read (.ofString "b") = .ok ['x'] ∧
      twoThere.read (.ofString "n/c") = .error .notFound := by decide
  refine tangle_eq_ok_iff.2 ⟨threeOutputs, ?_, ?_, by decide⟩
  · rw [hfiles]
    exact .cons ⟨by decide, render_bareFile ..⟩ (.cons ⟨by decide, render_bareFile ..⟩
      (.cons ⟨by decide, render_bareFile ..⟩ .nil))
  · exact List.forall_mem_cons.2 ⟨.inl ⟨_, hread.1⟩, List.forall_mem_cons.2
      ⟨.inl ⟨_, hread.2.1⟩, List.forall_mem_singleton.2 (.inr hread.2.2)⟩⟩

/-- After a file was overwritten and another one was created, both are unchanged, as is the
    one that was there. -/
theorem three_unchanged :
    (threeTangling.plan.paths.Pairwise fun p q => ¬p.alike q) ∧
      (threeTangling.plan.paths.Pairwise fun p q => ¬p.alikeUpToDot q) ∧
      (∀ r ∈ twoThere.temporaries threeTangling.plan.actions,
        twoThere.get? r = none ∧ r ∉ threeTangling.plan.paths.map twoThere.place) ∧
      (threeTangling.plan.perform twoThere).2.outcome = .ok () ∧
      ∃ outputs, List.Forall₂ (threeSession.Yields threeWorkspace)
          threeSession.store.files outputs ∧
        (threeSession.tangle threeWorkspace (threeTangling.plan.perform twoThere).1).outcome =
          .ok ⟨⟨[], outputs.map (·.path)⟩, [], 3⟩ := by
  have hpaths : threeTangling.plan.paths.Pairwise fun p q => ¬p.alike q := by decide
  have hdots : threeTangling.plan.paths.Pairwise fun p q => ¬p.alikeUpToDot q := by decide
  have hfresh : ∀ r ∈ twoThere.temporaries threeTangling.plan.actions,
      twoThere.get? r = none ∧ r ∉ threeTangling.plan.paths.map twoThere.place := by
    decide +kernel
  have hperform : (threeTangling.plan.perform twoThere).2.outcome = .ok () := by
    decide +kernel
  obtain ⟨outputs, hyields, -, -, -, hagain⟩ :=
    tangle_after_perform _ _ _ _ tangle_three hpaths (fun _ => hdots) hfresh hperform
  exact ⟨hpaths, hdots, hfresh, hperform, outputs, hyields, hagain⟩

/-! ## One file for two paths -/

/-- Two file chunks with a line of code each, whose names are spellings of one path. -/
def twoSpellings : Text := "@(a@) = c\nint x;\n@\n@(./a@) = c\nint y;\n@\n".toList

/-- The session with the two file chunks. -/
def twoSession : Session := (parse {} ⟨['d']⟩ twoSpellings).1

/-- The workspace of the document, without anchors. The output directory is the empty path. -/
def twoWorkspace : Workspace :=
  .new { annotation := .naked } (Shelf.library ⟨[(⟨['d']⟩, twoSpellings)]⟩) ⟨[]⟩

/-- A file chunk with a line of code. -/
def lineFile (name : String) (line : Nat) (code : String) : Chunk where
  name := .ofText name.toList
  language := ['c']
  role := .file none
  occurrences := [⟨⟨⟨['d']⟩, line⟩, [(line + 1, code.toList)]⟩]

/-- The output of the first file chunk. -/
def firstOutput : Output := ⟨.ofString "a", "int x;\n".toList, []⟩

/-- The output of the second file chunk. -/
def secondOutput : Output := ⟨.ofString "./a", "int y;\n".toList, []⟩

/-- What is planned for the two file chunks. -/
def twoTangling : Tangling :=
  ⟨⟨[⟨.create, firstOutput.path, firstOutput.content⟩,
    ⟨.create, secondOutput.path, secondOutput.content⟩], []⟩, [], 2⟩

/-- What is planned after that was performed. -/
def twoAgain : Tangling :=
  ⟨⟨[⟨.overwrite, firstOutput.path, firstOutput.content⟩], [secondOutput.path]⟩, [], 2⟩

theorem yields_two :
    List.Forall₂ (twoSession.Yields twoWorkspace) twoSession.store.files
      [firstOutput, secondOutput] := by
  have hfiles : twoSession.store.files =
      [lineFile "a" 1 "int x;", lineFile "./a" 4 "int y;"] := by decide
  have hfirst : Unfolding.Unfolds twoSession.store (.start (lineFile "a" 1 "int x;").key)
      (lineFile "a" 1 "int x;").steps _ := .begins (.plain (by decide) (.ends .done))
  have hsecond : Unfolding.Unfolds twoSession.store (.start (lineFile "./a" 4 "int y;").key)
      (lineFile "./a" 4 "int y;").steps _ := .begins (.plain (by decide) (.ends .done))
  rw [hfiles]
  exact .cons ⟨by decide, outcome_render rfl (Chunk.expand_of_unfolds hfirst)⟩
    (.cons ⟨by decide, outcome_render rfl (Chunk.expand_of_unfolds hsecond)⟩ .nil)

/-- The two paths are not alike, but lead to one file, which has the content of the second
    chunk after the plan is performed, and is to be overwritten again. -/
theorem tangle_twice :
    twoWorkspace.outputDir.text = [] ∧
      List.Forall₂ (twoSession.Yields twoWorkspace) twoSession.store.files
        [firstOutput, secondOutput] ∧
      (twoSession.tangle twoWorkspace {}).outcome = .ok twoTangling ∧
      (twoTangling.plan.paths.Pairwise fun p q => ¬p.alike q) ∧
      (∀ r ∈ Disk.temporaries {} twoTangling.plan.actions,
        Disk.get? {} r = none ∧ r ∉ twoTangling.plan.paths.map (Disk.place {})) ∧
      (twoTangling.plan.perform {}).2.outcome = .ok () ∧
      (twoTangling.plan.perform {}).1.read firstOutput.path = .ok secondOutput.content ∧
      secondOutput.content ≠ firstOutput.content ∧
      (twoSession.tangle twoWorkspace (twoTangling.plan.perform {}).1).outcome =
        .ok twoAgain := by
  have hnone : Disk.read {} firstOutput.path = .error .notFound ∧
      Disk.read {} secondOutput.path = .error .notFound := by decide
  have hread : (twoTangling.plan.perform {}).1.read firstOutput.path = .ok secondOutput.content ∧
      (twoTangling.plan.perform {}).1.read secondOutput.path = .ok secondOutput.content := by
    decide +kernel
  refine ⟨rfl, yields_two, ?_, by decide, by decide +kernel, by decide +kernel, hread.1, by decide,
    ?_⟩
  · refine tangle_eq_ok_iff.2 ⟨_, yields_two, ?_, by decide⟩
    exact List.forall_mem_cons.2 ⟨.inr hnone.1, List.forall_mem_singleton.2 (.inr hnone.2)⟩
  · refine tangle_eq_ok_iff.2 ⟨_, yields_two, ?_, by decide +kernel⟩
    exact List.forall_mem_cons.2 ⟨.inl ⟨_, hread.1⟩,
      List.forall_mem_singleton.2 (.inl ⟨_, hread.2⟩)⟩

end Session

end Tangle
