import Tangle.Proofs.Circles

/-!
# What a chunk reaches

A chunk *has* a reference if one of its lines is that reference, and it *cites* the
chunk that the reference stands for, if there is one (`Store.Cites`). It *reaches* a
reference if it comes to a chunk that has it, by citing as often as need be
(`Store.Reaches`). All this is said of chunks and not of keys, so it makes sense on
any store.

A chunk that is unfolded to its end is unfolded completely: its unfolding has exactly
the references that the chunk reaches (`Unfolding.Unfolds.mem_references_iff`), and
those that stand for nothing are the ones without a chunk
(`Unfolding.Unfolds.unresolved_eq_nil_iff`).
-/

namespace Tangle

open Relation

/-- A line of the chunk is that reference. -/
def Chunk.HasReference (c : Chunk) (r : Reference) : Prop :=
  ∃ o ∈ c.occurrences, ∃ line ∈ o.lines, Reference.parse? line.2 = some r

namespace Store

/-- A chunk has a reference that stands for the other. -/
def Cites (s : Store) (a b : Chunk) : Prop := ∃ r, a.HasReference r ∧ s.lookup r.name = some b

/-- A chunk comes to a reference, by citing as often as need be. -/
def Reaches (s : Store) (c : Chunk) (r : Reference) : Prop :=
  ∃ a, ReflTransGen s.Cites c a ∧ a.HasReference r

variable {s : Store} {a b c : Chunk} {r : Reference}

theorem Cites.mem_chunks (h : s.Cites a b) : b ∈ s.chunks := by
  obtain ⟨r, -, hl⟩ := h
  exact mem_chunks_of_lookup hl

/-- The chunks that are reached from a chunk of the store are in the store. -/
theorem mem_chunks_of_reflTransGen (h : ReflTransGen s.Cites a b) (ha : a ∈ s.chunks) :
    b ∈ s.chunks := by
  rcases ReflTransGen.cases_tail h with rfl | ⟨c, -, hcb⟩
  · exact ha
  · exact hcb.mem_chunks

/-- A chunk reaches the references that it has, and those of the chunks it cites. -/
theorem reaches_iff_cites :
    s.Reaches a r ↔ a.HasReference r ∨ ∃ b, s.Cites a b ∧ s.Reaches b r := by
  constructor
  · rintro ⟨c, hac, hc⟩
    rcases ReflTransGen.cases_head hac with rfl | ⟨b, hab, hbc⟩
    · exact .inl hc
    · exact .inr ⟨b, hab, c, hbc, hc⟩
  · rintro (h | ⟨b, hab, c, hbc, hc⟩)
    · exact ⟨a, .refl, h⟩
    · exact ⟨c, .head hab hbc, hc⟩

end Store

/-! ## Steps -/

namespace Step

/-- The reference in a step. -/
def reference? : Step → Option Reference
  | .line _ _ text => Reference.parse? text
  | .begins _ | .ends _ => none

/-- A step reaches the reference in it, and what is reached from its chunk. -/
def Reaches (s : Store) (step : Step) (r : Reference) : Prop :=
  step.reference? = some r ∨ ∃ b, step.target? s = some b ∧ s.Reaches b r

theorem target?_eq (s : Store) (step : Step) :
    step.target? s = step.reference?.bind fun r => s.lookup r.name := by
  cases step <;> rfl

end Step

theorem Chunk.hasReference_iff {c : Chunk} {r : Reference} :
    c.HasReference r ↔ ∃ step ∈ c.steps, step.reference? = some r := by
  constructor
  · rintro ⟨o, ho, ⟨number, text⟩, hline, hp⟩
    obtain ⟨location, resume, hstep⟩ := Occurrence.line_mem_steps_iff.2 ⟨number, hline⟩
    exact ⟨_, List.mem_flatMap.2 ⟨o, ho, hstep⟩, hp⟩
  · rintro ⟨step, hstep, hr⟩
    obtain ⟨o, ho, hstep⟩ := List.mem_flatMap.1 hstep
    cases step with
    | begins | ends => cases hr
    | line location resume text =>
      obtain ⟨number, hline⟩ := Occurrence.line_mem_steps_iff.1 ⟨location, resume, hstep⟩
      exact ⟨o, ho, _, hline, hr⟩

theorem Store.cites_iff {s : Store} {a b : Chunk} :
    s.Cites a b ↔ ∃ step ∈ a.steps, step.target? s = some b := by
  constructor
  · rintro ⟨r, hr, hl⟩
    obtain ⟨step, hstep, hr⟩ := Chunk.hasReference_iff.1 hr
    exact ⟨step, hstep, by rw [Step.target?_eq, hr]; exact hl⟩
  · rintro ⟨step, hstep, hb⟩
    rw [Step.target?_eq] at hb
    obtain ⟨r, hr, hl⟩ := Option.bind_eq_some_iff.1 hb
    exact ⟨r, Chunk.hasReference_iff.2 ⟨step, hstep, hr⟩, hl⟩

/-- A chunk reaches what its steps reach. -/
theorem Store.reaches_iff {s : Store} {c : Chunk} {r : Reference} :
    s.Reaches c r ↔ ∃ step ∈ c.steps, step.Reaches s r := by
  rw [reaches_iff_cites, Chunk.hasReference_iff]
  constructor
  · rintro (⟨step, hstep, hr⟩ | ⟨b, hb, hr⟩)
    · exact ⟨step, hstep, .inl hr⟩
    · obtain ⟨step, hstep, hb⟩ := cites_iff.1 hb
      exact ⟨step, hstep, .inr ⟨b, hb, hr⟩⟩
  · rintro ⟨step, hstep, hr | ⟨b, hb, hr⟩⟩
    · exact .inl ⟨step, hstep, hr⟩
    · exact .inr ⟨b, cites_iff.2 ⟨step, hstep, hb⟩, hr⟩

/-! ## Unfoldings -/

namespace Unfolding

/-- The references that an unfolding has, also inside what was inserted. -/
def references : Unfolding → List Reference
  | done => []
  | begins _ rest | ends _ rest | plain _ rest => rest.references
  | missing r _ _ rest => r :: rest.references
  | inserted r _ inside _ rest => r :: (inside.references ++ rest.references)

variable {s : Store} {t : Trail} {steps : List Step} {u : Unfolding}

/-- An unfolding has the references that its steps reach. -/
theorem Unfolds.mem_references_iff (h : Unfolds s t steps u) {r : Reference} :
    r ∈ u.references ↔ ∃ step ∈ steps, step.Reaches s r := by
  induction h with
  | done => simp [references]
  | begins _ ih | ends _ ih =>
    rw [List.exists_mem_cons_iff, references, ih]
    simp [Step.Reaches, Step.reference?, Step.target?]
  | plain hp _ ih =>
    rw [List.exists_mem_cons_iff, references, ih]
    simp [Step.Reaches, Step.reference?, Step.target?, hp]
  | missing hp hl _ ih =>
    rw [List.exists_mem_cons_iff, references, List.mem_cons, ih]
    simp [Step.Reaches, Step.reference?, Step.target?, hp, hl, eq_comm]
  | inserted hp hl _ _ _ ihInside ih =>
    -- What was inserted has the references that its chunk reaches.
    rw [List.exists_mem_cons_iff, references, List.mem_cons, List.mem_append, ih, ihInside,
      ← Store.reaches_iff, ← or_assoc]
    simp [Step.Reaches, Step.reference?, Step.target?, hp, hl, eq_comm]

/-- All references of an unfolding stand for something exactly if they all have a
    chunk. -/
theorem Unfolds.unresolved_eq_nil_iff (h : Unfolds s t steps u) (parent : Name) :
    u.unresolved parent = [] ↔ ∀ r ∈ u.references, s.lookup r.name ≠ none := by
  induction h generalizing parent with
  | done => simp [unresolved, references]
  | begins _ ih | ends _ ih | plain _ _ ih => exact ih parent
  | missing hp hl _ ih => simp [unresolved, references, hl]
  | inserted hp hl _ _ _ ihInside ih =>
    rw [unresolved, references, List.append_eq_nil_iff, ihInside, ih, List.forall_mem_cons,
      List.forall_mem_append, hl]
    simp

end Unfolding

end Tangle
