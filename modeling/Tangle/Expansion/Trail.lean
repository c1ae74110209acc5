import Tangle.Chunk.Key
import Tangle.Error

/-!
# Trails

While chunks are replaced by their code, the *trail* holds the chunks that are
being replaced right now, from the outermost to the innermost. A chunk that is
on the trail cannot be entered again: that would be a circle of references, and
the error shows the walk that led to it.

The keys on the trail are also kept as a set, most recent first, which is what
`enter` looks at.
-/

namespace Tangle

/-- The chunks being replaced. -/
structure Trail where
  /-- The chunks, from the outermost to the innermost. -/
  stack : List Key := []
  /-- The same chunks as a set. -/
  seen : List Key := []
deriving DecidableEq, Inhabited

namespace Trail

/-- Enters a chunk, unless it is on the trail. -/
def enter (t : Trail) (k : Key) : Except Error Trail :=
  if k ∈ t.seen then .error (.cycle (t.stack.map (·.name) ++ [k.name]))
  else .ok ⟨t.stack ++ [k], k :: t.seen⟩

/-- Leaves the innermost chunk, if there is one. -/
def leave (t : Trail) : Trail :=
  match t.stack.getLast? with
  | none => t
  | some k => ⟨t.stack.dropLast, t.seen.erase k⟩

/-- The number of chunks on the trail. -/
def depth (t : Trail) : Nat := t.stack.length

theorem enter_eq_ok_iff {t t' : Trail} {k : Key} :
    t.enter k = .ok t' ↔ k ∉ t.seen ∧ t' = ⟨t.stack ++ [k], k :: t.seen⟩ := by
  unfold enter
  split <;> simp_all [eq_comm]

end Trail

end Tangle
