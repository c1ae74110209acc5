import Tangle.Proofs.Trees

/-!
# Lines given to occurrences

The body of an occurrence grows by one line at a time (`Occurrence.push`). Its numbers and its
text are then read apart: the lines of the text are found by their line feeds, and each is paired
with the number in the same place. Nothing is out of place there, as long as no line that was
given has a line feed in it (`Occurrence.Unbroken.pushAll`): the pairs are the lines that were
given, in their order, and an empty line counts like any other. What a line may lose is a
carriage return at its end.

All occurrences that documents give are of this kind (`Store.Filled.unbroken`). So the lines of a
chunk are the same with their numbers and without (`Store.Filled.body_eq`).
-/

namespace Tangle

namespace Occurrence

/-- The occurrence with more lines of code, given one after the other. -/
def pushAll (o : Occurrence) (given : List (Nat × Text)) : Occurrence :=
  given.foldl (fun o line => o.push line.1 line.2) o

variable {o : Occurrence} {given : List (Nat × Text)}

theorem body_pushAll (o : Occurrence) (given : List (Nat × Text)) :
    (o.pushAll given).body = o.body ++ given := by
  induction given generalizing o with
  | nil => exact (List.append_nil _).symm
  | cons line given ih =>
    calc (o.pushAll (line :: given)).body
      _ = (o.push line.1 line.2).body ++ given := ih _
      _ = o.body ++ line :: given := by rw [push, List.append_assoc, List.singleton_append]

theorem Unbroken.push (h : o.Unbroken) {line : Nat × Text} (hline : '\n' ∉ line.2) :
    (o.push line.1 line.2).Unbroken :=
  List.forall_mem_append.2 ⟨h, List.forall_mem_singleton.2 hline⟩

theorem Unbroken.pushAll (h : o.Unbroken) (hgiven : ∀ line ∈ given, '\n' ∉ line.2) :
    (o.pushAll given).Unbroken := by
  induction given generalizing o with
  | nil => exact h
  | cons line given ih =>
    obtain ⟨hline, hgiven⟩ := List.forall_mem_cons.1 hgiven
    exact ih (h.push hline) hgiven

/-- No number and no line is left over when they are paired. -/
theorem length_lines (h : o.Unbroken) : o.lines.length = o.count := by
  rw [lines_eq h, List.length_map, count]

end Occurrence

/-- The lines of a chunk are those of its occurrences, which have numbers. -/
theorem Store.Filled.body_eq {s : Store} (h : s.Filled) {c : Chunk} (hc : c ∈ s.chunks) :
    c.body = c.occurrences.flatMap fun o => o.lines.map (·.2) :=
  List.flatMap_congr fun o ho => (Occurrence.map_snd_lines (h.unbroken c hc o ho)).symm

namespace Occurrence

/-- An occurrence that was given lines without line feeds has as many lines as were given, and
    each of them is the one that was given in its place, with its number, without a carriage
    return at its end. In a store that documents have filled, all occurrences are like that, and
    their lines are the lines of their chunk. -/
theorem lines_of_pushed (location : Location) (given : List (Nat × Text))
    (h : ∀ line ∈ given, '\n' ∉ line.2) :
    let o := pushAll ⟨location, []⟩ given
    (o.count = given.length ∧ o.lines.length = o.count ∧
      ∀ i : Nat, o.lines[i]? = given[i]?.map fun line => (line.1, Text.chomp line.2)) ∧
    ∀ documents, ∀ c ∈ (Store.ofDocuments documents).chunks,
      (∀ o ∈ c.occurrences, o.Unbroken ∧
        o.lines = o.body.map fun line => (line.1, Text.chomp line.2)) ∧
      c.body = c.occurrences.flatMap fun o => o.lines.map (·.2) := by
  intro o
  have hbody : o.body = given := body_pushAll _ _
  have hunbroken : o.Unbroken := Unbroken.pushAll (fun _ hline => absurd hline List.not_mem_nil) h
  refine ⟨⟨congrArg List.length hbody, length_lines hunbroken, fun i => ?_⟩,
    fun documents c hc => ?_⟩
  · rw [lines_eq hunbroken, List.getElem?_map, hbody]
  · have hs : (Store.ofDocuments documents).Filled := .ofDocuments documents
    exact ⟨fun o' ho => ⟨hs.unbroken c hc o' ho, lines_eq (hs.unbroken c hc o' ho)⟩, hs.body_eq hc⟩

/-- Lines with carriage returns, some of them empty, also the last one. -/
def ragged : List (Nat × Text) :=
  [(5, "a\r".toList), (7, []), (8, "b\rc\r\r".toList), (9, [])]

theorem lines_of_ragged :
    let o := pushAll ⟨⟨⟨['d']⟩, 4⟩, []⟩ ragged
    let s := Store.ofDocuments [(⟨['d']⟩, "@<a@> = c\nb\r\r\r\n\n@\n".toList)]
    (∀ line ∈ ragged, '\n' ∉ line.2) ∧ o.lines.length = 4 ∧ o.lines[0]? = some (5, ['a']) ∧
      o.lines[2]? = some (8, "b\rc\r".toList) ∧ o.lines[3]? = some (9, []) ∧
      ∃ c ∈ s.chunks, c.body = ["b\r".toList, []] ∧
        (c.occurrences.flatMap fun o => o.lines.map (·.2)) = ["b\r".toList, []] := by
  intro o s
  have hragged : ∀ line ∈ ragged, '\n' ∉ line.2 := by decide
  obtain ⟨⟨hcount, hlength, hlines⟩, hstore⟩ := lines_of_pushed ⟨⟨['d']⟩, 4⟩ ragged hragged
  refine ⟨hragged, hlength.trans hcount, hlines 0, hlines 2, hlines 3, ?_⟩
  obtain ⟨c, hc⟩ : ∃ c, s.chunks = [c] ∧ c.body = ["b\r".toList, []] := ⟨_, rfl, by decide⟩
  have hmem : c ∈ s.chunks := by simp [hc.1]
  exact ⟨c, hmem, hc.2, (hstore _ c hmem).2.symm.trans hc.2⟩

end Occurrence

end Tangle
