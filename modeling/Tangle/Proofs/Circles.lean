import Tangle.Proofs.Derivations
import Tangle.Proofs.Registries
import Mathlib.Data.List.Chain
import Mathlib.Logic.Relation

/-!
# Circles of references

The references of a store make a graph on its keys: a chunk *refers* to another
if one of its lines is a reference, and the name in it stands for the other
(`Store.Refers`). A *circle* is a way in that graph that comes back to where it
started.

A chunk cannot be expanded exactly if a circle can be reached from it
(`Chunk.expand_fails_iff_circle`). The two halves are of different kinds:

* An error comes from the trail. The trail is always a walk in the graph, from the
  chunk that is expanded to the one whose lines are being looked at, that meets no
  chunk twice (`Trail.Follows`). So the walk in an error is a *lasso*: it goes on
  until it meets one of its own chunks again (`Store.IsLasso`).
* If a chunk is unfolded to its end, so are all chunks that it refers to; hence
  every walk from it ends (`Unfolding.Unfolds.acc`), and there is no circle to be
  reached.
-/

namespace Tangle

open Relation

namespace Store

/-- A chunk refers to another: a line of one of its occurrences is a reference,
    and the name in it stands for the other. -/
inductive Refers (s : Store) : Key → Key → Prop
  | line {k : Key} {a b : Chunk} {o : Occurrence} {number : Nat} {text : Text} {r : Reference} :
    s.get? k = some a → o ∈ a.occurrences → (number, text) ∈ o.lines →
      Reference.parse? text = some r → s.lookup r.name = some b → Refers s k b.key

/-- A circle of references can be reached from a chunk. -/
def ReachesCircle (s : Store) (k : Key) : Prop :=
  ∃ l, ReflTransGen s.Refers k l ∧ TransGen s.Refers l l

/-- A walk along references that starts at a chunk, meets no chunk twice, and
    could go on to a chunk that it has met. -/
structure IsLasso (s : Store) (start : Key) (walk : List Key) (last : Key) : Prop where
  /-- The walk starts there. -/
  starts : walk.head? = some start
  /-- Each chunk refers to the next one. -/
  follows : (walk ++ [last]).IsChain s.Refers
  /-- No chunk is met twice on the walk. -/
  nodup : walk.Nodup
  /-- The last chunk was met before. -/
  returns : last ∈ walk

variable {s : Store} {k l : Key}

theorem ReachesCircle.step (h : s.ReachesCircle k) : ∃ l, s.Refers k l ∧ s.ReachesCircle l := by
  obtain ⟨m, hkm, hm⟩ := h
  rcases ReflTransGen.cases_head hkm with rfl | ⟨l, hkl, hlm⟩
  · -- The chunk is on the circle itself: follow the circle.
    obtain ⟨l, hkl, hlk⟩ := TransGen.head'_iff.1 hm
    exact ⟨l, hkl, k, hlk, hm⟩
  · exact ⟨l, hkl, m, hlm, hm⟩

/-- No circle can be reached from a chunk from which every walk ends. -/
theorem not_reachesCircle_of_acc (h : Acc (fun l k => s.Refers k l) k) : ¬s.ReachesCircle k := by
  induction h with
  | intro k _ ih =>
    intro hk
    obtain ⟨l, hkl, hl⟩ := hk.step
    exact ih l hkl hl

/-- A walk leads from its first chunk to its last one. -/
theorem reflTransGen_of_isChain {first last : Key} {walk : List Key}
    (h : (walk ++ [last]).IsChain s.Refers) (hf : (walk ++ [last]).head? = some first) :
    ReflTransGen s.Refers first last := by
  obtain ⟨rest, hr⟩ := List.head?_eq_some_iff.1 hf
  refine List.relationReflTransGen_of_exists_isChain_cons rest (hr ▸ h) ?_
  simp [← hr]

/-- A lasso shows a circle. -/
theorem IsLasso.reachesCircle {start last : Key} {walk : List Key}
    (h : s.IsLasso start walk last) : s.ReachesCircle start := by
  obtain ⟨before, after, rfl⟩ := List.append_of_mem h.returns
  have hchain := h.follows
  rw [List.append_assoc, List.cons_append] at hchain
  refine ⟨last, ?_, ?_⟩
  · -- The part of the walk up to the chunk that it comes back to.
    have hto : (before ++ [last]).IsChain s.Refers := by
      rw [List.append_cons] at hchain
      exact hchain.left_of_append
    have hstart := h.starts
    refine reflTransGen_of_isChain hto ?_
    cases before <;> simpa using hstart
  · -- The part of the walk from that chunk on, which comes back to it.
    have hround : (last :: (after ++ [last])).IsChain s.Refers := hchain.right_of_append
    obtain ⟨next, hnext⟩ : ∃ next, (after ++ [last]).head? = some next := by
      cases after <;> simp
    exact TransGen.head' (hround.rel_head? hnext) (reflTransGen_of_isChain hround.tail hnext)

end Store

/-! ## The trail -/

/-- The trail is a walk along references, from one chunk to another, that meets
    no chunk twice. -/
structure Trail.Follows (s : Store) (start current : Key) (t : Trail) : Prop where
  /-- The set has the chunks of the walk. -/
  seen : ∀ k, k ∈ t.seen ↔ k ∈ t.stack
  /-- The walk starts at the outermost chunk. -/
  starts : t.stack.head? = some start
  /-- The walk ends at the innermost chunk. -/
  ends : t.stack.getLast? = some current
  /-- Each chunk refers to the next one. -/
  follows : t.stack.IsChain s.Refers
  /-- No chunk is met twice. -/
  nodup : t.stack.Nodup

namespace Trail

variable {s : Store} {t t' : Trail} {start current k : Key}

/-- A trail that starts is the walk that stays where it is. -/
theorem follows_start (s : Store) (k : Key) : Follows s k k (Trail.start k) where
  seen _ := Iff.rfl
  starts := rfl
  ends := rfl
  follows := .singleton k
  nodup := List.nodup_singleton k

/-- The walk may go on to a chunk that the innermost one refers to. -/
theorem Follows.isChain_concat (h : Follows s start current t) (hr : s.Refers current k) :
    (t.stack ++ [k]).IsChain s.Refers := by
  refine h.follows.append (.singleton k) fun x hx y hy => ?_
  rw [h.ends] at hx
  cases hx
  cases hy
  exact hr

/-- Entering a chunk makes the walk longer. -/
theorem Follows.enter (h : Follows s start current t) (hr : s.Refers current k)
    (ht : t.enter k = .ok t') : Follows s start k t' := by
  obtain ⟨hk, rfl⟩ := enter_eq_ok_iff.1 ht
  constructor
  · intro l
    simp [h.seen l, or_comm]
  · rw [List.head?_append, h.starts]
    rfl
  · simp
  · exact h.isChain_concat hr
  · rw [← List.concat_eq_append]
    exact h.nodup.concat fun hm => hk ((h.seen k).2 hm)

/-- A chunk that cannot be entered closes a lasso. -/
theorem Follows.lasso (h : Follows s start current t) (hr : s.Refers current k) {e : Error}
    (ht : t.enter k = .error e) :
    ∃ walk last, e = .cycle ((walk ++ [last]).map (·.name)) ∧ s.IsLasso start walk last := by
  rw [Trail.enter] at ht
  split at ht
  · rename_i hk
    cases ht
    refine ⟨t.stack, k, by simp, h.starts, h.isChain_concat hr, h.nodup, (h.seen k).1 hk⟩
  · cases ht

end Trail

/-! ## Unfolding -/

/-- The lines among the steps of an occurrence are its lines. -/
theorem Occurrence.line_mem_steps_iff {o : Occurrence} {text : Text} :
    (∃ location resume, Step.line location resume text ∈ o.steps) ↔
      ∃ number, (number, text) ∈ o.lines := by
  simp only [Occurrence.steps, List.mem_append, List.mem_cons, List.mem_map, Prod.exists]
  constructor
  · rintro ⟨location, resume, (h | ⟨number, _, index, h, e⟩) | h | h⟩
    · cases h
    · cases e
      exact ⟨number, List.fst_mem_of_mem_zipIdx h⟩
    · cases h
    · cases h
  · rintro ⟨number, h⟩
    obtain ⟨index, hi⟩ := List.mem_iff_getElem?.1 h
    exact ⟨_, _, .inl (.inr ⟨number, text, index, List.mk_mem_zipIdx_iff_getElem?.2 hi, rfl⟩)⟩

/-- A chunk refers to what its steps refer to. -/
theorem Store.refers_iff {s : Store} {k l : Key} {a : Chunk} (ha : s.get? k = some a) :
    s.Refers k l ↔ ∃ step ∈ a.steps, ∃ b, step.target? s = some b ∧ b.key = l := by
  constructor
  · rintro ⟨ha', ho, hline, hp, hb⟩
    cases ha.symm.trans ha'
    obtain ⟨location, resume, hstep⟩ := Occurrence.line_mem_steps_iff.2 ⟨_, hline⟩
    exact ⟨_, List.mem_flatMap.2 ⟨_, ho, hstep⟩, _, by simp [Step.target?, hp, hb], rfl⟩
  · rintro ⟨step, hstep, b, hb, rfl⟩
    obtain ⟨o, ho, hstep⟩ := List.mem_flatMap.1 hstep
    cases step with
    | begins | ends => cases hb
    | line location resume text =>
      obtain ⟨r, hp, hl⟩ := Option.bind_eq_some_iff.1 hb
      obtain ⟨number, hline⟩ := Occurrence.line_mem_steps_iff.1 ⟨_, _, hstep⟩
      exact .line ha ho hline hp hl

theorem Step.mem_chunks_of_target? {s : Store} {step : Step} {b : Chunk}
    (h : step.target? s = some b) : b ∈ s.chunks := by
  cases step with
  | begins | ends => cases h
  | line location resume text =>
    obtain ⟨r, _, hl⟩ := Option.bind_eq_some_iff.1 h
    exact Store.mem_chunks_of_lookup hl

namespace Unfolding

variable {s : Store} {t : Trail} {steps : List Step}

/-- If steps are unfolded to their end, then every walk from a chunk that they
    refer to ends. -/
theorem Unfolds.acc (hs : s.Consistent) {u : Unfolding} (h : Unfolds s t steps u) :
    ∀ step ∈ steps, ∀ b, step.target? s = some b → Acc (fun l k => s.Refers k l) b.key := by
  induction h with
  | done => exact fun _ h => absurd h List.not_mem_nil
  | begins _ ih | ends _ ih =>
    rintro step hm b hb
    rcases List.mem_cons.1 hm with rfl | hm
    · cases hb
    · exact ih step hm b hb
  | plain hp _ ih =>
    rintro step hm b hb
    rcases List.mem_cons.1 hm with rfl | hm
    · simp [Step.target?, hp] at hb
    · exact ih step hm b hb
  | missing hp hl _ ih =>
    rintro step hm b hb
    rcases List.mem_cons.1 hm with rfl | hm
    · simp [Step.target?, hp, hl] at hb
    · exact ih step hm b hb
  | @inserted t t' _ _ _ r child _ _ _ hp hl _ _ _ ihInside ihRest =>
    rintro step hm b hb
    rcases List.mem_cons.1 hm with rfl | hm
    · -- The chunk that was inserted: its own steps were unfolded to their end, so
      -- every walk from a chunk that it refers to ends, and so does one from it.
      obtain rfl : child = b := by simpa [Step.target?, hp, hl] using hb
      refine .intro _ fun l hr => ?_
      obtain ⟨step, hstep, b, hb, rfl⟩ :=
        (Store.refers_iff (hs.get?_key (Store.mem_chunks_of_lookup hl))).1 hr
      exact ihInside step hstep b hb
    · exact ihRest step hm b hb

/-- If the steps of a chunk come to an error, on a trail that leads to the chunk,
    then the error shows a lasso. -/
theorem Breaks.lasso (hs : s.Consistent) {e : Error} (h : Breaks s e t steps) {start : Key}
    {a : Chunk} (ha : s.get? a.key = some a) (hsub : steps ⊆ a.steps)
    (ht : t.Follows s start a.key) :
    ∃ walk last, e = .cycle ((walk ++ [last]).map (·.name)) ∧ s.IsLasso start walk last := by
  -- The trail leads to the chunk whose steps are looked at: it goes on when a chunk
  -- is entered, and it is as it was when the next step is looked at.
  induction h generalizing a with
  | here hb he =>
    exact ht.lasso ((Store.refers_iff ha).2 ⟨_, hsub List.mem_cons_self, _, hb, rfl⟩) he
  | inside hb ht' _ ih =>
    have hr := (Store.refers_iff ha).2 ⟨_, hsub List.mem_cons_self, _, hb, rfl⟩
    exact ih (hs.get?_key (Step.mem_chunks_of_target? hb)) (fun _ h => h) (ht.enter hr ht')
  | later _ ih => exact ih ha (fun _ h => hsub (List.mem_cons_of_mem _ h)) ht

end Unfolding

/-! ## Expansion -/

namespace Chunk

variable {s : Store} {c : Chunk} {config : Config}

/-- No circle can be reached from a chunk that is expanded. -/
theorem not_reachesCircle_of_expand (hs : s.Consistent) (hc : c ∈ s.chunks) {x : Expansion}
    (h : (c.expand s config).outcome = .ok x) : ¬s.ReachesCircle c.key := by
  obtain ⟨u, hu, -⟩ := unfolds_of_expand h
  refine Store.not_reachesCircle_of_acc (.intro _ fun l hr => ?_)
  obtain ⟨step, hstep, b, hb, rfl⟩ := (Store.refers_iff (hs.get?_key hc)).1 hr
  exact hu.acc hs step hstep b hb

/-- A chunk that is not expanded shows a lasso. -/
theorem lasso_of_expand (hs : s.Consistent) (hc : c ∈ s.chunks) {e : Error}
    (h : (c.expand s config).outcome = .error e) :
    ∃ walk last, e = .cycle ((walk ++ [last]).map (·.name)) ∧ s.IsLasso c.key walk last :=
  (breaks_of_expand h).lasso hs (hs.get?_key hc) (fun _ h => h) (Trail.follows_start s c.key)

/-- A chunk is expanded exactly if no circle can be reached from it. -/
theorem exists_expand_iff (hs : s.Consistent) (hc : c ∈ s.chunks) :
    (∃ x, (c.expand s config).outcome = .ok x) ↔ ¬s.ReachesCircle c.key := by
  constructor
  · rintro ⟨x, hx⟩
    exact not_reachesCircle_of_expand hs hc hx
  · intro hno
    cases hx : (c.expand s config).outcome with
    | ok x => exact ⟨x, rfl⟩
    | error e =>
      obtain ⟨walk, last, -, hl⟩ := lasso_of_expand hs hc hx
      exact absurd hl.reachesCircle hno

/-- Expanding a chunk comes to an end on every consistent store, with an error
    exactly if a circle of references can be reached from the chunk, and the
    error is then the walk into such a circle. -/
theorem expand_fails_iff_circle (s : Store) (hs : s.Consistent) (c : Chunk) (hc : c ∈ s.chunks)
    (config : Config) :
    ((∃ names, (c.expand s config).outcome = .error (.cycle names)) ↔ s.ReachesCircle c.key) ∧
      (¬s.ReachesCircle c.key → ∃ x, (c.expand s config).outcome = .ok x) ∧
      ∀ e, (c.expand s config).outcome = .error e →
        ∃ walk last, e = .cycle ((walk ++ [last]).map (·.name)) ∧ s.IsLasso c.key walk last := by
  refine ⟨⟨?_, fun hr => ?_⟩, (exists_expand_iff hs hc).2, fun e => lasso_of_expand hs hc⟩
  · rintro ⟨names, h⟩
    obtain ⟨walk, last, -, hl⟩ := lasso_of_expand hs hc h
    exact hl.reachesCircle
  · cases hx : (c.expand s config).outcome with
    | ok x => exact absurd hr (not_reachesCircle_of_expand hs hc hx)
    | error e =>
      obtain ⟨walk, last, rfl, -⟩ := lasso_of_expand hs hc hx
      exact ⟨_, rfl⟩

/-- A fragment of one line. -/
def ofLine (name line : String) : Chunk where
  name := .ofText name.toList
  language := ['c']
  role := .fragment
  occurrences := [⟨⟨.ofString "doc", 1⟩, [(2, line.toList)]⟩]

/-- Two fragments that refer to each other. -/
def ring : Store := { fragments := [ofLine "a" "@<b@>", ofLine "b" "  @< a @>;"] }

theorem expand_ring :
    ring.Consistent ∧ ofLine "a" "@<b@>" ∈ ring.chunks ∧
      ∃ names, ((ofLine "a" "@<b@>").expand ring {}).outcome = .error (.cycle names) := by
  have hs : ring.Consistent := ⟨by rintro (_ | _) <;> decide, by rintro (_ | _) <;> decide⟩
  have ha : ofLine "a" "@<b@>" ∈ ring.chunks := by decide
  have hb : ofLine "b" "  @< a @>;" ∈ ring.chunks := by decide
  have hab : ring.Refers (ofLine "a" "@<b@>").key (ofLine "b" "  @< a @>;").key :=
    .line (hs.get?_key ha) List.mem_cons_self (by decide : (2, "@<b@>".toList) ∈ _)
      (r := ⟨[], .ofText ['b'], []⟩) (by decide) (by decide)
  have hba : ring.Refers (ofLine "b" "  @< a @>;").key (ofLine "a" "@<b@>").key :=
    .line (hs.get?_key hb) List.mem_cons_self (by decide : (2, "  @< a @>;".toList) ∈ _)
      (r := ⟨[' ', ' '], .ofText ['a'], [';']⟩) (by decide) (by decide)
  exact ⟨hs, ha, (expand_fails_iff_circle ring hs _ ha {}).1.2 ⟨_, .refl, .tail (.single hab) hba⟩⟩

end Chunk

end Tangle
