import Tangle.Line.Bracketed

/-!
# References

A line of code that starts, after its indentation, with the bracketed name of a
fragment refers to the chunk of that name: the code of that chunk takes the
place of the line, moved to its indentation. What follows the brackets stays.

No character of a reference is lost: the line is its indentation, the brackets
with the name as it is written, and the trailing text.
-/

namespace Tangle

/-- A line that refers to a chunk. -/
structure Reference where
  /-- The blanks before the brackets. -/
  indent : Text
  /-- The chunk referred to. -/
  name : Name
  /-- What follows the brackets. -/
  trailing : Text
deriving DecidableEq, Inhabited

namespace Reference

/-- Reads a line as a reference. -/
def parse? (line : Text) : Option Reference :=
  match Line.bracketed? .fragment (line.dropWhile Text.isBlank) with
  | some (name, trailing) =>
    if '\n' ∈ trailing then none
    else some ⟨line.takeWhile Text.isBlank, .ofText name, trailing⟩
  | none => none

/-- Something other than blanks follows the brackets. -/
def hasTrailing (r : Reference) : Bool := !Text.allBlank r.trailing

/-- No character of a reference is lost. -/
theorem eq_of_parse? {line : Text} {r : Reference} (h : parse? line = some r) :
    ∃ name, r.name = .ofText name ∧
      line = r.indent ++ '@' :: '<' :: (name ++ '@' :: '>' :: r.trailing) := by
  unfold parse? at h
  split at h
  · rename_i name trailing hb
    split at h
    · cases h
    · cases h
      refine ⟨name, rfl, ?_⟩
      have hrest := Line.eq_of_bracketed? hb
      conv => lhs; rw [← List.takeWhile_append_dropWhile (p := Text.isBlank) (l := line), hrest]
      rfl
  · cases h

/-- A character that is not in the line is in no part of the reference. -/
theorem notMem_of_parse? {line : Text} {r : Reference} (h : parse? line = some r) {c : Char}
    (hc : c ∉ line) : c ∉ r.indent ∧ c ∉ r.trailing := by
  obtain ⟨name, -, rfl⟩ := eq_of_parse? h
  simp only [List.mem_append, List.mem_cons, not_or] at hc
  exact ⟨hc.1, hc.2.2.2.2.2.2⟩

end Reference

end Tangle
