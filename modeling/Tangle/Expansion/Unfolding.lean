import Tangle.Expansion.Trail
import Tangle.Line.Reference
import Tangle.Report
import Tangle.Store

/-!
# Unfoldings

The *unfolding* of a chunk is what is left of it once every reference is
replaced by the unfolding of the chunk that it stands for. It depends on the
chunks only, and not on how the output is to look: the configuration comes in
when an unfolding is rendered.

A chunk is a list of *steps* (`Chunk.steps`): its occurrences, one after the
other, each with its lines between its beginning and its end. `Unfolding.build`
goes through the steps. A reference to a chunk that is not defined is noted, and
stands for nothing; a reference to a chunk that is being unfolded is an error.
So every chunk that is entered is one of the store that was not on the trail,
which is why `build` comes to an end on any store: the number of chunks that are
not on the trail goes down (`unseen_lt`).
-/

namespace Tangle

/-- What stands in a chunk, line by line. -/
inductive Step
  /-- An occurrence begins. -/
  | begins (location : Location)
  /-- A line of code, with its location, and with the location to which an
      anchor after it points. -/
  | line (location resume : Location) (text : Text)
  /-- An occurrence ends. -/
  | ends (location : Location)
deriving DecidableEq, Inhabited

/-- The steps of an occurrence. -/
def Occurrence.steps (o : Occurrence) : List Step :=
  .begins o.location ::
    (o.lines.zipIdx.map fun ((number, text), index) =>
      .line (o.location.onLine number) (o.location.onLine (o.shifted index)) text) ++
    [.ends (o.location.onLine o.endLine)]

/-- The steps of a chunk. -/
def Chunk.steps (c : Chunk) : List Step := c.occurrences.flatMap Occurrence.steps

/-- A chunk whose references are replaced, step by step. -/
inductive Unfolding
  /-- Nothing is left. -/
  | done
  /-- An occurrence begins. -/
  | begins (location : Location) (rest : Unfolding)
  /-- An occurrence ends. -/
  | ends (location : Location) (rest : Unfolding)
  /-- A line of code. -/
  | plain (text : Text) (rest : Unfolding)
  /-- A reference, at a location, to a chunk that is not defined. -/
  | missing (reference : Reference) (location resume : Location) (rest : Unfolding)
  /-- A reference, replaced by the unfolding of a chunk. -/
  | inserted (reference : Reference) (child : Chunk) (inside : Unfolding) (resume : Location)
      (rest : Unfolding)
deriving DecidableEq, Inhabited

/-- The number of chunks of the store that are not on the trail. -/
def Store.unseen (s : Store) (t : Trail) : Nat := s.chunks.countP fun c => c.key ∉ t.seen

/-- Entering a chunk of the store leaves fewer chunks to enter. -/
theorem Store.unseen_lt {s : Store} {t t' : Trail} {c : Chunk} (hc : c ∈ s.chunks)
    (h : t.enter c.key = .ok t') : s.unseen t' < s.unseen t := by
  obtain ⟨hk, rfl⟩ := Trail.enter_eq_ok_iff.1 h
  exact countP_lt hc (fun x hx => by simp_all) (by simp [hk]) (by simp)

namespace Unfolding

/-- Unfolds steps of a chunk, given the chunks that are being unfolded. -/
def build (s : Store) (t : Trail) (steps : List Step) : Report Unfolding :=
  match steps with
  | [] => pure .done
  | .begins location :: rest => return .begins location (← build s t rest)
  | .ends location :: rest => return .ends location (← build s t rest)
  | .line location resume text :: rest =>
    match Reference.parse? text with
    | none => return .plain text (← build s t rest)
    | some reference =>
      match hc : s.lookup reference.name with
      | none => do
        Report.note (.expandedToNothing location reference.name)
        return .missing reference location resume (← build s t rest)
      | some child =>
        match ht : t.enter child.key with
        | .error e => Report.fail e
        | .ok t' => do
          have : s.unseen t' < s.unseen t := Store.unseen_lt (Store.mem_chunks_of_lookup hc) ht
          let inside ← build s t' child.steps
          return .inserted reference child inside resume (← build s t rest)
termination_by (s.unseen t, steps.length)

end Unfolding

/-- The unfolding of a chunk. -/
def Chunk.unfolding (c : Chunk) (s : Store) : Report Unfolding := do
  let t ← Report.ofExcept (Trail.enter {} c.key)
  Unfolding.build s t c.steps

end Tangle
