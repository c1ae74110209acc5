import Tangle.Chunk.Key

/-!
# Names in brackets

A document writes the name of a chunk between `@<` and `@>` (a fragment) or
between `@(` and `@)` (a file). The text between them is not empty and does not
have the closing character, so the first such character closes the name.
-/

namespace Tangle.Line

/-- The text between the brackets at the start of `t`, as it is written, and
    what follows them. -/
def bracketed? (kind : Kind) (t : Text) : Option (Text × Text) :=
  match t with
  | '@' :: c :: inner =>
    if c = kind.opening then
      let name := inner.takeWhile (· != kind.closing)
      match inner.dropWhile (· != kind.closing) with
      | _ :: rest =>
        if name.getLast? = some '@' ∧ name.dropLast ≠ [] then some (name.dropLast, rest) else none
      | [] => none
    else none
  | _ => none

/-- What is read are the brackets with the text between them. -/
theorem eq_of_bracketed? {kind : Kind} {t name rest : Text}
    (h : bracketed? kind t = some (name, rest)) :
    t = '@' :: kind.opening :: (name ++ '@' :: kind.closing :: rest) := by
  unfold bracketed? at h
  split at h
  · rename_i c inner
    split at h
    · subst c
      dsimp only at h
      split at h
      · rename_i d after hd
        split at h
        · rename_i hname
          have hclosing : d = kind.closing := by
            have := List.head?_dropWhile_not (· != kind.closing) inner
            simpa [hd] using this
          have hinner := List.takeWhile_append_dropWhile (p := (· != kind.closing)) (l := inner)
          obtain ⟨given, hgiven⟩ := List.getLast?_eq_some_iff.1 hname.1
          cases h
          rw [hd, hgiven, hclosing] at hinner
          rw [hgiven, ← hinner]
          simp
        · cases h
      · cases h
    · cases h
  · cases h

end Tangle.Line
