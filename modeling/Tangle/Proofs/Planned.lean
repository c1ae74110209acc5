import Tangle.Proofs.Outputs

/-!
# What is planned

A tangling that succeeds is told by its *outputs*, whatever the hooks are and whatever
is on the disk: each file chunk *yields* one (`Session.Yields`), its path and its
content, and the plan has an entry for each output, which depends on what is at the
path (`Session.tangle_eq_ok_iff`). So the paths of a plan are the targets of the file
chunks, each once (`Session.planned_perm`).
-/

namespace Tangle

/-- The file at the path can be read, or is not there. -/
def Disk.Inspects (d : Disk) (path : Path) : Prop :=
  (∃ t, d.read path = .ok t) ∨ d.read path = .error .notFound

/-- An output is planned exactly if its path can be looked at. -/
theorem Plan.outcome_write_eq_ok_iff {p p' : Plan} {d : Disk} {o : Output} :
    (p.write d o.path o.content).outcome = .ok p' ↔
      d.Inspects o.path ∧ p' = p.including (o.entry d) := by
  constructor
  · intro h
    have hread : d.Inspects o.path := by
      rw [write] at h
      split at h
      · exact .inl ⟨_, ‹_›⟩
      · exact .inr ‹_›
      · cases h
    exact ⟨hread, Except.ok.inj (h.symm.trans (outcome_write hread))⟩
  · rintro ⟨hread, rfl⟩
    exact outcome_write hread

/-- The paths of a plan, of files that are to be written and of those that are not. -/
def Plan.paths (p : Plan) : List Path := p.actions.map (·.path) ++ p.unchanged

namespace Session

variable (s : Session) (w : Workspace)

/-- The output that a file chunk yields. -/
structure Yields (c : Chunk) (o : Output) : Prop where
  /-- It goes to the target of the name of the chunk. -/
  path : w.target c.name = .ok o.path
  /-- It is what the chunk is rendered to. -/
  text : (s.render w c).outcome = .ok (o.content, o.unresolved)

/-- The targets are those of the file chunks, one by one. -/
def AreTargets : List Chunk → List Path → Prop :=
  List.Forall₂ fun c path => w.target c.name = .ok path

variable {s w} {d : Disk} {files : List Chunk} {t t' : Tangling}

/-- Tangling file chunks succeeds exactly if each of them yields an output whose path
    can be looked at, and then the outputs are added one by one. -/
theorem tangleFiles_eq_ok_iff :
    (s.tangleFiles w d files t).outcome = .ok t' ↔
      ∃ outputs, List.Forall₂ (s.Yields w) files outputs ∧ (∀ o ∈ outputs, d.Inspects o.path) ∧
        t' = outputs.foldl (·.including d) t := by
  induction files generalizing t with
  | nil =>
    constructor
    · rintro ⟨⟩
      exact ⟨[], .nil, fun _ h => absurd h List.not_mem_nil, rfl⟩
    · rintro ⟨_, ⟨⟩, -, rfl⟩
      rfl
  | cons c files ih =>
    rw [tangleFiles, Report.bind_eq, Report.outcome_andThen_eq_ok]
    constructor
    · rintro ⟨path, hpath, h⟩
      obtain ⟨⟨content, unresolved⟩, hrender, h⟩ := Report.outcome_andThen_eq_ok.1 h
      obtain ⟨plan, hplan, h⟩ := Report.outcome_andThen_eq_ok.1 h
      obtain ⟨outputs, hy, hd, rfl⟩ := ih.1 h
      obtain ⟨hread, rfl⟩ :=
        Plan.outcome_write_eq_ok_iff (o := ⟨path, content, unresolved⟩).1 hplan
      exact ⟨⟨path, content, unresolved⟩ :: outputs, .cons ⟨hpath, hrender⟩ hy,
        List.forall_mem_cons.2 ⟨hread, hd⟩, rfl⟩
    · rintro ⟨_, hy, hd, rfl⟩
      cases hy with
      | @cons _ o _ outputs hc hy =>
        obtain ⟨hread, hd⟩ := List.forall_mem_cons.1 hd
        refine ⟨o.path, hc.path, Report.outcome_andThen_eq_ok.2 ⟨_, hc.text, ?_⟩⟩
        refine Report.outcome_andThen_eq_ok.2 ⟨_, Plan.outcome_write_eq_ok_iff.2 ⟨hread, rfl⟩, ?_⟩
        exact ih.2 ⟨outputs, hy, hd, rfl⟩

/-- What a tangling that succeeds comes to. -/
theorem tangle_eq_ok_iff :
    (s.tangle w d).outcome = .ok t ↔
      ∃ outputs, List.Forall₂ (s.Yields w) s.store.files outputs ∧
        (∀ o ∈ outputs, d.Inspects o.path) ∧
        t = ⟨⟨outputs.filterMap fun o => (o.entry d).getLeft?,
          outputs.filterMap fun o => (o.entry d).getRight?⟩,
          outputs.flatMap (·.unresolved), outputs.length⟩ := by
  rw [outcome_tangle, tangleFiles_eq_ok_iff]
  simp [foldl_including]

/-- The entry of an output is at its path. -/
theorem path_entry (d : Disk) (o : Output) :
    (o.entry d).elim (·.path) id = o.path := by
  rw [Output.entry]
  split
  · split <;> rfl
  · rfl

/-- The paths of the entries of outputs are those of the outputs. -/
theorem paths_perm (d : Disk) (outputs : List Output) :
    (Plan.paths ⟨outputs.filterMap fun o => (o.entry d).getLeft?,
      outputs.filterMap fun o => (o.entry d).getRight?⟩).Perm (outputs.map (·.path)) := by
  induction outputs with
  | nil => exact .refl _
  | cons o outputs ih =>
    have hpath := path_entry d o
    rw [Plan.paths] at ih ⊢
    cases he : o.entry d with
    | inl a =>
      rw [he] at hpath
      simpa [he, ← hpath] using ih
    | inr path =>
      rw [he] at hpath
      simp only [List.filterMap_cons, he, Sum.getLeft?_inr, Sum.getRight?_inr, List.map_cons,
        ← hpath, Sum.elim_inr, id]
      exact List.perm_middle.trans (ih.cons path)

/-- The paths of a plan are the targets of the file chunks, each once. -/
theorem planned_perm (h : (s.tangle w d).outcome = .ok t) :
    ∃ targets, AreTargets w s.store.files targets ∧ t.plan.paths.Perm targets := by
  obtain ⟨outputs, hy, -, rfl⟩ := tangle_eq_ok_iff.1 h
  refine ⟨outputs.map (·.path), ?_, paths_perm d outputs⟩
  exact List.forall₂_map_right_iff.2 (hy.imp fun _ _ hc => hc.path)

end Session

end Tangle
