import Tangle.Proofs.Components
import Tangle.Proofs.Planned

/-!
# Targets that collide

File chunks have different names, but different names may be spellings of the same
path: `a`, `./a` and `a/` are three file chunks with one output file, and `.` is the
output directory itself (`Session.spellings_collide`). The names of a registry are
compared as texts, and paths by their components.

What a name adds to the components of the output directory is what it has *inside*
(`Workspace.inside`). Two targets are alike exactly if the names have the same inside,
and a target is the output directory exactly if the name has nothing inside. So a plan
keeps its files apart exactly if the names of the file chunks do so inside
(`Session.planned_apart_iff`).
-/

namespace Tangle

namespace Workspace

/-- The components that a name adds to those of the output directory: a `.` in front
    counts only if the output directory is the empty path. -/
def inside (w : Workspace) (name : Name) : List Path.Component :=
  let components := Path.components ⟨name.text⟩
  if w.outputDir.text = [] then components else components.filter (· ≠ .current)

variable {w : Workspace} {m n name : Name} {p q path : Path}

theorem target_eq_ok_iff :
    w.target name = .ok path ↔
      (name.text ≠ [] ∧ (Path.components ⟨name.text⟩).all staysInside) ∧
        path = w.outputDir.join ⟨name.text⟩ := by
  rw [target]
  split
  · rename_i h
    simp only [h, Except.ok.injEq, eq_comm (b := path), true_and, ne_eq, not_false_eq_true]
  · rename_i h
    simp only [h, false_and, reduceCtorEq]

/-- A name with a target is no absolute path. -/
theorem not_isAbsolute_of_target (h : w.target name = .ok path) :
    Path.isAbsolute ⟨name.text⟩ = false := by
  obtain ⟨⟨-, hall⟩, -⟩ := target_eq_ok_iff.1 h
  by_contra habs
  have hlead : (⟨name.text⟩ : Path).lead = some .root := by
    rw [Path.lead_eq, if_pos]
    simpa [Path.isAbsolute] using habs
  rw [Path.components_eq, hlead] at hall
  simp [staysInside] at hall

/-- The components of a target are those of the output directory, and then those that
    the name has inside. -/
theorem components_target (h : w.target name = .ok path) :
    path.components = w.outputDir.components ++ w.inside name := by
  have habs := not_isAbsolute_of_target h
  obtain ⟨-, rfl⟩ := target_eq_ok_iff.1 h
  by_cases hd : w.outputDir.text = []
  · rw [Path.components_join_of_text_eq_nil hd habs, inside, if_pos hd]
  · rw [Path.components_join hd habs, inside, if_neg hd, Path.filter_components habs]

/-- Two targets are alike exactly if their names have the same inside. -/
theorem alike_target_iff (hm : w.target m = .ok p) (hn : w.target n = .ok q) :
    p.alike q ↔ w.inside m = w.inside n := by
  rw [Path.alike, beq_iff_eq, components_target hm, components_target hn,
    List.append_cancel_left_eq]

/-- A target is the output directory exactly if its name has nothing inside. -/
theorem alike_outputDir_iff (h : w.target name = .ok path) :
    path.alike w.outputDir ↔ w.inside name = [] := by
  rw [Path.alike, beq_iff_eq, components_target h, List.append_right_eq_self]

end Workspace

namespace Session

variable {w : Workspace}

variable {files : List Chunk} {targets : List Path}

/-- What is said of a target and of its file chunk alike is said of all of them. -/
theorem AreTargets.forall_mem_iff (h : AreTargets w files targets) {P : Path → Prop}
    {Q : Chunk → Prop} (hPQ : ∀ c path, w.target c.name = .ok path → (P path ↔ Q c)) :
    (∀ path ∈ targets, P path) ↔ ∀ c ∈ files, Q c := by
  induction h with
  | nil => simp
  | cons hc _ ih => rw [List.forall_mem_cons, List.forall_mem_cons, hPQ _ _ hc, ih]

/-- Targets are kept apart exactly if the names differ inside. -/
theorem AreTargets.pairwise_iff (h : AreTargets w files targets) :
    (targets.Pairwise fun p q => ¬p.alike q) ↔ (files.map (w.inside ·.name)).Nodup := by
  induction h with
  | nil => simp
  | @cons c path files targets hc h ih =>
    have hothers : (∀ q ∈ targets, ¬path.alike q) ↔
        ∀ c' ∈ files, ¬w.inside c.name = w.inside c'.name :=
      AreTargets.forall_mem_iff h fun _ _ hc' => not_congr (Workspace.alike_target_iff hc hc')
    rw [List.pairwise_cons, List.map_cons, List.nodup_cons, ih, hothers]
    simp [eq_comm]

/-- Targets are alike exactly if the names have the same inside, and a target is the
    output directory exactly if the name has nothing inside. So the files of a plan are
    kept apart, and none of them is the output directory, exactly if the names of the
    file chunks differ inside, and have something there. -/
theorem planned_apart_iff (s : Session) (w : Workspace) (d : Disk) (t : Tangling)
    (h : (s.tangle w d).outcome = .ok t) :
    (∀ m n p q, w.target m = .ok p → w.target n = .ok q →
      (p.alike q ↔ w.inside m = w.inside n)) ∧
    (∀ name p, w.target name = .ok p → (p.alike w.outputDir ↔ w.inside name = [])) ∧
    ((t.plan.paths.Pairwise fun p q => ¬p.alike q) ↔
      (s.store.files.map (w.inside ·.name)).Nodup) ∧
    ((∀ p ∈ t.plan.paths, ¬p.alike w.outputDir) ↔
      ∀ c ∈ s.store.files, w.inside c.name ≠ []) := by
  obtain ⟨targets, hfiles, hperm⟩ := planned_perm h
  refine ⟨fun m n p q => Workspace.alike_target_iff, fun name p => Workspace.alike_outputDir_iff,
    ?_, ?_⟩
  · rw [← hfiles.pairwise_iff]
    exact hperm.pairwise_iff fun hpq hqp => hpq (by rwa [Path.alike, Bool.beq_comm])
  · rw [← hfiles.forall_mem_iff fun c path hc => not_congr (Workspace.alike_outputDir_iff hc)]
    simp only [hperm.mem_iff]

/-- Three file chunks without code: a name, another spelling of it, and the directory
    itself. -/
def spellings : Text := "@(a@) = c\n@\n@(./a@) = c\n@\n@(.@) = c\n@\n".toList

/-- The session with the three file chunks. -/
def spellingsSession : Session := (parse {} ⟨['d']⟩ spellings).1

/-- The workspace of the document, without anchors. -/
def spellingsWorkspace : Workspace :=
  .new { annotation := .naked } (Shelf.library ⟨[(⟨['d']⟩, spellings)]⟩) (.ofString "/o")

/-- The outputs of the three file chunks. -/
def spellingsOutputs : List Output :=
  [⟨.ofString "/o/a", [], []⟩, ⟨.ofString "/o/./a", [], []⟩, ⟨.ofString "/o/.", [], []⟩]

/-- A file chunk without code, defined on a line of the document. -/
def bareFile (name : String) (line : Nat) : Chunk where
  name := .ofText name.toList
  language := ['c']
  role := .file none
  occurrences := [⟨⟨⟨['d']⟩, line⟩, []⟩]

/-- Without anchors, a file chunk without code has an empty output. -/
theorem render_bareFile (s : Session) (library : Library) (dir : Path) (name : String)
    (line : Nat) :
    (s.render (.new { annotation := .naked } library dir) (bareFile name line)).outcome =
      .ok ([], []) := by
  have hu : Unfolding.Unfolds s.store (.start (bareFile name line).key)
      (bareFile name line).steps _ := .begins (.ends .done)
  exact outcome_render rfl (Chunk.expand_of_unfolds hu)

theorem tangle_spellings :
    (spellingsSession.tangle spellingsWorkspace {}).outcome =
      .ok ⟨⟨spellingsOutputs.map fun o => ⟨.create, o.path, []⟩, []⟩, [], 3⟩ := by
  have hfiles : spellingsSession.store.files =
      [bareFile "a" 1, bareFile "./a" 3, bareFile "." 5] := by decide
  have hread : ∀ o ∈ spellingsOutputs, Disk.read {} o.path = .error .notFound := by decide
  refine tangle_eq_ok_iff.2 ⟨spellingsOutputs, ?_, fun o ho => .inr (hread o ho), by decide⟩
  rw [hfiles]
  exact .cons ⟨by decide, render_bareFile ..⟩ (.cons ⟨by decide, render_bareFile ..⟩
    (.cons ⟨by decide, render_bareFile ..⟩ .nil))

/-- File chunks with different names may have the same output file, or the output
    directory for one. -/
theorem spellings_collide :
    (spellingsSession.store.files.map (·.name)).Nodup ∧
      ∃ t, (spellingsSession.tangle spellingsWorkspace {}).outcome = .ok t ∧
        ¬(t.plan.actions.Pairwise fun a b => ¬a.path.alike b.path) ∧
        ∃ a ∈ t.plan.actions, a.path.alike spellingsWorkspace.outputDir :=
  ⟨by decide, _, tangle_spellings, by decide, by decide⟩

theorem spellings_inside :
    ∃ t, (spellingsSession.tangle spellingsWorkspace {}).outcome = .ok t ∧
      ((t.plan.paths.Pairwise fun p q => ¬p.alike q) ↔
        (spellingsSession.store.files.map (spellingsWorkspace.inside ·.name)).Nodup) :=
  ⟨_, tangle_spellings, (planned_apart_iff _ _ _ _ tangle_spellings).2.2.1⟩

end Session

end Tangle
