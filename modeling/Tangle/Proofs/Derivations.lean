import Tangle.Expansion.Basic

/-!
# Derivations of unfoldings

How the unfolding of a chunk comes about, as rules: `Unfolds` has a rule for each
kind of step that can be unfolded, and `Breaks` one for each way in which
unfolding comes to an error. Every outcome of `Unfolding.build` has a derivation
(`unfolds_of_build`, `breaks_of_build`), so what is to be said about all
unfoldings is proved rule by rule; and to have a derivation is to be the outcome
(`build_of_unfolds`).
-/

namespace Tangle

/-- The chunk that a step refers to. -/
def Step.target? (s : Store) : Step → Option Chunk
  | .line _ _ text => (Reference.parse? text).bind fun r => s.lookup r.name
  | .begins _ | .ends _ => none

namespace Unfolding

/-- The steps of a chunk unfold, on a trail, to their end. -/
inductive Unfolds (s : Store) : Trail → List Step → Unfolding → Prop
  | done {t : Trail} : Unfolds s t [] .done
  | begins {t : Trail} {location : Location} {rest : List Step} {u : Unfolding} :
    Unfolds s t rest u → Unfolds s t (.begins location :: rest) (.begins location u)
  | ends {t : Trail} {location : Location} {rest : List Step} {u : Unfolding} :
    Unfolds s t rest u → Unfolds s t (.ends location :: rest) (.ends location u)
  | plain {t : Trail} {location resume : Location} {text : Text} {rest : List Step}
      {u : Unfolding} :
    Reference.parse? text = none → Unfolds s t rest u →
      Unfolds s t (.line location resume text :: rest) (.plain text u)
  | missing {t : Trail} {location resume : Location} {text : Text} {r : Reference}
      {rest : List Step} {u : Unfolding} :
    Reference.parse? text = some r → s.lookup r.name = none → Unfolds s t rest u →
      Unfolds s t (.line location resume text :: rest) (.missing r location resume u)
  | inserted {t t' : Trail} {location resume : Location} {text : Text} {r : Reference}
      {child : Chunk} {rest : List Step} {inside u : Unfolding} :
    Reference.parse? text = some r → s.lookup r.name = some child →
      t.enter child.key = .ok t' → Unfolds s t' child.steps inside → Unfolds s t rest u →
      Unfolds s t (.line location resume text :: rest) (.inserted r child inside resume u)

/-- The steps of a chunk come, on a trail, to an error. -/
inductive Breaks (s : Store) (e : Error) : Trail → List Step → Prop
  | here {t : Trail} {step : Step} {child : Chunk} {rest : List Step} :
    step.target? s = some child → t.enter child.key = .error e → Breaks s e t (step :: rest)
  | inside {t t' : Trail} {step : Step} {child : Chunk} {rest : List Step} :
    step.target? s = some child → t.enter child.key = .ok t' → Breaks s e t' child.steps →
      Breaks s e t (step :: rest)
  | later {t : Trail} {step : Step} {rest : List Step} :
    Breaks s e t rest → Breaks s e t (step :: rest)

variable {s : Store} {t : Trail} {steps : List Step}

/-! ### Lines that refer to chunks -/

section Line

variable {location resume : Location} {text : Text} {r : Reference} {rest : List Step}

theorem build_missing (hp : Reference.parse? text = some r) (hl : s.lookup r.name = none) :
    build s t (.line location resume text :: rest) =
      (Report.note (.expandedToNothing location r.name)).andThen fun _ =>
        (build s t rest).andThen fun u => pure (.missing r location resume u) := by
  rw [build]
  simp only [hp]
  split
  · rfl
  · cases hl.symm.trans ‹_›

theorem build_circle {child : Chunk} {e : Error} (hp : Reference.parse? text = some r)
    (hl : s.lookup r.name = some child) (ht : t.enter child.key = .error e) :
    build s t (.line location resume text :: rest) = Report.fail e := by
  rw [build]
  simp only [hp]
  split
  · cases hl.symm.trans ‹_›
  · rename_i hc
    cases hl.symm.trans hc
    split
    · cases ht.symm.trans ‹_›
      rfl
    · cases ht.symm.trans ‹_›

theorem build_inserted {child : Chunk} {t' : Trail} (hp : Reference.parse? text = some r)
    (hl : s.lookup r.name = some child) (ht : t.enter child.key = .ok t') :
    build s t (.line location resume text :: rest) =
      (build s t' child.steps).andThen fun inside =>
        (build s t rest).andThen fun u => pure (.inserted r child inside resume u) := by
  rw [build]
  simp only [hp]
  split
  · cases hl.symm.trans ‹_›
  · rename_i hc
    cases hl.symm.trans hc
    split
    · cases ht.symm.trans ‹_›
    · cases ht.symm.trans ‹_›
      rfl

end Line

/-! ### Outcomes -/

theorem unfolds_of_build {u : Unfolding} (h : (build s t steps).outcome = .ok u) :
    Unfolds s t steps u := by
  fun_induction build s t steps generalizing u with
  | case1 =>
    cases h
    exact .done
  | case2 t location rest ih =>
    obtain ⟨v, hv, ⟨⟩⟩ := Report.outcome_andThen_eq_ok.1 h
    exact .begins (ih hv)
  | case3 t location rest ih =>
    obtain ⟨v, hv, ⟨⟩⟩ := Report.outcome_andThen_eq_ok.1 h
    exact .ends (ih hv)
  | case4 t location resume text rest hp ih =>
    obtain ⟨v, hv, ⟨⟩⟩ := Report.outcome_andThen_eq_ok.1 h
    exact .plain hp (ih hv)
  | case5 t location resume text rest r hp hl ih =>
    obtain ⟨_, _, h⟩ := Report.outcome_andThen_eq_ok.1 h
    obtain ⟨v, hv, ⟨⟩⟩ := Report.outcome_andThen_eq_ok.1 h
    exact .missing hp hl (ih hv)
  | case6 => cases h
  | case7 t location resume text rest r hp child hl t' ht _ ihInside ihRest =>
    obtain ⟨w, hw, h⟩ := Report.outcome_andThen_eq_ok.1 h
    obtain ⟨v, hv, ⟨⟩⟩ := Report.outcome_andThen_eq_ok.1 h
    exact .inserted hp hl ht (ihInside hw) (ihRest hv)

/-- What has a derivation is the outcome. -/
theorem build_of_unfolds {u : Unfolding} (h : Unfolds s t steps u) :
    (build s t steps).outcome = .ok u := by
  induction h with
  | done =>
    rw [build]
    rfl
  | begins _ ih | ends _ ih =>
    rw [build]
    exact Report.outcome_andThen_eq_ok.2 ⟨_, ih, rfl⟩
  | plain hp _ ih =>
    rw [build]
    simp only [hp]
    exact Report.outcome_andThen_eq_ok.2 ⟨_, ih, rfl⟩
  | missing hp hl _ ih =>
    rw [build_missing hp hl]
    refine Report.outcome_andThen_eq_ok.2 ⟨(), rfl, ?_⟩
    exact Report.outcome_andThen_eq_ok.2 ⟨_, ih, rfl⟩
  | inserted hp hl ht _ _ ihInside ihRest =>
    rw [build_inserted hp hl ht]
    refine Report.outcome_andThen_eq_ok.2 ⟨_, ihInside, ?_⟩
    exact Report.outcome_andThen_eq_ok.2 ⟨_, ihRest, rfl⟩

theorem breaks_of_build {e : Error} (h : (build s t steps).outcome = .error e) :
    Breaks s e t steps := by
  have hpure {u : Unfolding} : (pure u : Report Unfolding).outcome ≠ .error e := by simp
  fun_induction build s t steps with
  | case1 => exact absurd h hpure
  | case2 t location rest ih | case3 t location rest ih | case4 t location resume text rest hp ih =>
    rcases Report.outcome_andThen_eq_error.1 h with h | ⟨_, _, h⟩
    · exact .later (ih h)
    · exact absurd h hpure
  | case5 t location resume text rest r hp hl ih =>
    rcases Report.outcome_andThen_eq_error.1 h with h | ⟨_, _, h⟩
    · cases h
    · rcases Report.outcome_andThen_eq_error.1 h with h | ⟨_, _, h⟩
      · exact .later (ih h)
      · exact absurd h hpure
  | case6 t location resume text rest r hp child hl e' ht =>
    cases h
    exact .here (by simp [Step.target?, hp, hl]) ht
  | case7 t location resume text rest r hp child hl t' ht _ ihInside ihRest =>
    rcases Report.outcome_andThen_eq_error.1 h with h | ⟨_, _, h⟩
    · exact .inside (by simp [Step.target?, hp, hl]) ht (ihInside h)
    · rcases Report.outcome_andThen_eq_error.1 h with h | ⟨_, _, h⟩
      · exact .later (ihRest h)
      · exact absurd h hpure

end Unfolding

/-! ## Expansion -/

/-- The trail on which a chunk is expanded. -/
def Trail.start (k : Key) : Trail := ⟨[k], [k]⟩

theorem Trail.enter_start (k : Key) : Trail.enter {} k = .ok (start k) := by
  simp [enter, start]

/-- A chunk of the store is on its own trail, so not all chunks are off it. -/
theorem Store.unseen_start_lt {s : Store} {c : Chunk} (hc : c ∈ s.chunks) :
    s.unseen (.start c.key) < s.size := by
  calc s.unseen (.start c.key)
    _ < s.unseen {} := unseen_lt hc (Trail.enter_start c.key)
    _ ≤ s.chunks.length := List.countP_le_length
    _ = s.size := by rw [chunks, List.length_append, size]

namespace Chunk

variable {s : Store} {c : Chunk} {config : Config}

theorem unfolding_eq (c : Chunk) (s : Store) :
    c.unfolding s = Unfolding.build s (.start c.key) c.steps := by
  rw [unfolding, Trail.enter_start]
  rfl

/-- A chunk that is expanded has an unfolding, of which the expansion is made. -/
theorem unfolds_of_expand {x : Expansion} (h : (c.expand s config).outcome = .ok x) :
    ∃ u, Unfolding.Unfolds s (.start c.key) c.steps u ∧
      x = ⟨Text.unlines (u.render config c), u.unresolved c.name⟩ := by
  rw [expand, unfolding_eq] at h
  obtain ⟨u, hu, hx⟩ := Report.outcome_andThen_eq_ok.1 h
  cases hx
  exact ⟨u, Unfolding.unfolds_of_build hu, rfl⟩

/-- A chunk that has an unfolding is expanded. -/
theorem expand_of_unfolds {u : Unfolding} (h : Unfolding.Unfolds s (.start c.key) c.steps u) :
    (c.expand s config).outcome =
      .ok ⟨Text.unlines (u.render config c), u.unresolved c.name⟩ := by
  rw [expand, unfolding_eq]
  exact Report.outcome_andThen_eq_ok.2 ⟨u, Unfolding.build_of_unfolds h, rfl⟩

/-- A chunk that is not expanded comes to an error where it is unfolded. -/
theorem breaks_of_expand {e : Error} (h : (c.expand s config).outcome = .error e) :
    Unfolding.Breaks s e (.start c.key) c.steps := by
  rw [expand, unfolding_eq] at h
  rcases Report.outcome_andThen_eq_error.1 h with h | ⟨u, _, h⟩
  · exact Unfolding.breaks_of_build h
  · cases h

end Chunk

end Tangle
