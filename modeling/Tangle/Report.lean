import Tangle.Error
import Tangle.Event

/-!
# Reports

The outcome of an operation: a result or an error, together with the events
noted on the way. Events noted before a failure stay noted.
-/

namespace Tangle

/-- A result or an error, with the events noted on the way. -/
structure Report (α : Type) where
  /-- The events, in order. -/
  log : List Event := []
  /-- The result, or why there is none. -/
  outcome : Except Error α

namespace Report

variable {α β : Type}

/-- The first operation, then, if it succeeds, the second one on its result. -/
def andThen (r : Report α) (f : α → Report β) : Report β :=
  match r.outcome with
  | .error e => ⟨r.log, .error e⟩
  | .ok a =>
    let next := f a
    ⟨r.log ++ next.log, next.outcome⟩

instance : Monad Report where
  pure a := ⟨[], .ok a⟩
  bind := andThen

/-- Fails without noting anything. -/
def fail (e : Error) : Report α := ⟨[], .error e⟩

/-- Notes an event. -/
def note (e : Event) : Report Unit := ⟨[e], .ok ()⟩

/-- An outcome, with nothing noted. -/
def ofExcept (outcome : Except Error α) : Report α := ⟨[], outcome⟩

@[simp]
theorem pure_eq (a : α) : (pure a : Report α) = ⟨[], .ok a⟩ := rfl

@[simp]
theorem bind_eq (r : Report α) (f : α → Report β) : r >>= f = r.andThen f := rfl

theorem andThen_ok (log : List Event) (a : α) (f : α → Report β) :
    andThen ⟨log, .ok a⟩ f = ⟨log ++ (f a).log, (f a).outcome⟩ := rfl

theorem andThen_error (log : List Event) (e : Error) (f : α → Report β) :
    andThen (⟨log, .error e⟩ : Report α) f = ⟨log, .error e⟩ := rfl

theorem outcome_andThen_of_ok {r : Report α} {a : α} (h : r.outcome = .ok a)
    (f : α → Report β) : (r.andThen f).outcome = (f a).outcome := by
  rw [andThen, h]

theorem outcome_andThen_eq_bind (r : Report α) (f : α → Report β) :
    (r.andThen f).outcome = r.outcome.bind fun a => (f a).outcome := by
  unfold andThen
  split <;> simp_all [Except.bind]

/-- Two operations succeed together exactly if both do. -/
theorem outcome_andThen_eq_ok {r : Report α} {f : α → Report β} {b : β} :
    (r.andThen f).outcome = .ok b ↔ ∃ a, r.outcome = .ok a ∧ (f a).outcome = .ok b := by
  unfold andThen
  split <;> simp_all

/-- Two operations fail together if the first one does, or else the second. -/
theorem outcome_andThen_eq_error {r : Report α} {f : α → Report β} {e : Error} :
    (r.andThen f).outcome = .error e ↔
      r.outcome = .error e ∨ ∃ a, r.outcome = .ok a ∧ (f a).outcome = .error e := by
  unfold andThen
  split <;> simp_all

end Report

/-! ## Operations on each item of a list -/

theorem mapM_cons_of_ok {α β : Type} {f : α → Except Error β} {a : α} {b : β} (h : f a = .ok b)
    (l : List α) : (a :: l).mapM f = (l.mapM f).map (b :: ·) := by
  rw [List.mapM_cons, h]
  cases l.mapM f <;> rfl

theorem mapM_cons_of_error {α β : Type} {f : α → Except Error β} {a : α} {e : Error}
    (h : f a = .error e) (l : List α) : (a :: l).mapM f = .error e := by
  rw [List.mapM_cons, h]
  rfl

end Tangle
