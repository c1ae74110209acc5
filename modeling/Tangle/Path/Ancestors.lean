import Tangle.Path.Basic

/-!
# Ancestors of a path

The path itself, its parent, the parent of that, and so on, as long as there is
one. Each parent is written with fewer characters (`length_of_parent?`), so the
list ends: at the root directory for an absolute path, at the empty path for a
relative one.
-/

namespace Tangle.Path

theorem length_unsplit_cons (piece : Text) (more : List Text) :
    (unsplit more).length ≤ (unsplit (piece :: more)).length ∧
      piece.length ≤ (unsplit (piece :: more)).length := by
  cases more with
  | nil => simp [unsplit, Text.joinWith]
  | cons q qs =>
    simp only [unsplit, Text.joinWith, List.length_append]
    omega

/-- Pieces at the end make the text longer, if one of them is not empty. -/
theorem length_unsplit_append (ps : List Text) {piece : Text} (h : piece ≠ []) (qs : List Text) :
    (unsplit ps).length < (unsplit (ps ++ piece :: qs)).length := by
  have hp : 0 < piece.length := List.length_pos_iff.2 h
  induction ps with
  | nil =>
    have := (length_unsplit_cons piece qs).2
    simp only [List.nil_append, unsplit, Text.joinWith, List.length_nil] at this ⊢
    omega
  | cons p ps ih =>
    cases ps with
    | nil =>
      have hle := (length_unsplit_cons piece qs).2
      simp only [List.nil_append, List.cons_append, unsplit, Text.joinWith, List.length_append]
        at hle ⊢
      omega
    | cons q ps =>
      simp only [List.cons_append, unsplit, Text.joinWith, List.length_append] at ih ⊢
      omega

/-- A path is its lead and its pieces. -/
theorem leadText_append_pieces (p : Path) : p.leadText ++ unsplit p.pieces = p.text := by
  rw [leadText, pieces, unsplit, Text.joinWith_split, List.take_append_drop]

theorem trimRight_eq (pieces : List Text) :
    ∃ dropped, pieces = trimRight pieces ++ dropped := by
  refine ⟨(pieces.reverse.takeWhile ignorable).reverse, ?_⟩
  rw [trimRight, ← List.reverse_append, List.takeWhile_append_dropWhile, List.reverse_reverse]

/-- The last piece that is left counts. -/
theorem not_ignorable_of_trimRight {pieces front : List Text} {piece : Text}
    (h : trimRight pieces = front ++ [piece]) : ignorable piece = false := by
  have hr : pieces.reverse.dropWhile ignorable = piece :: front.reverse := by
    have := congrArg List.reverse h
    simpa [trimRight] using this
  have := List.head?_dropWhile_not ignorable pieces.reverse
  simpa [hr] using this

theorem length_unsplit_trimRight (pieces : List Text) :
    (unsplit (trimRight pieces)).length ≤ (unsplit pieces).length := by
  obtain ⟨dropped, h⟩ := trimRight_eq pieces
  generalize trimRight pieces = front at h
  subst h
  induction front with
  | nil => simp [unsplit, Text.joinWith]
  | cons p ps ih =>
    cases ps with
    | nil => exact (length_unsplit_cons p dropped).2
    | cons q ps =>
      simp only [List.cons_append, unsplit, Text.joinWith, List.length_append] at ih ⊢
      omega

/-- A parent is written with fewer characters. -/
theorem length_of_parent? {p q : Path} (h : p.parent? = some q) :
    q.text.length < p.text.length := by
  have hp := congrArg List.length p.leadText_append_pieces
  rw [List.length_append] at hp
  unfold parent? at h
  split at h
  · split at h
    · rename_i hl
      simp only [Option.some.injEq] at h
      subst h
      have : p.text ≠ [] := by
        intro ht
        simp [lead, ht] at hl
      exact List.length_pos_iff.2 this
    · simp at h
  · rename_i piece more ht
    simp only [Option.some.injEq] at h
    subst h
    obtain ⟨front, last, hf⟩ : ∃ front last, piece :: more = front ++ [last] :=
      ⟨_, _, (List.dropLast_concat_getLast (List.cons_ne_nil piece more)).symm⟩
    have hlast := not_ignorable_of_trimRight (ht.trans hf)
    have hne : last ≠ [] := by
      rintro rfl
      simp [ignorable] at hlast
    obtain ⟨dropped, hd⟩ := trimRight_eq p.pieces
    rw [ht, hf, List.append_assoc] at hd
    have h1 := length_unsplit_append front hne dropped
    have h2 := length_unsplit_trimRight (piece :: more).dropLast
    rw [hf, List.dropLast_concat] at h2
    rw [hf, List.dropLast_concat, List.length_append]
    have h3 := congrArg (fun ps => (unsplit ps).length) hd
    simp only [List.cons_append, List.nil_append] at h1 h3
    omega

/-- The path and its parents, from the path up. -/
def ancestors (p : Path) : List Path :=
  match h : p.parent? with
  | none => [p]
  | some q =>
    have : q.text.length < p.text.length := length_of_parent? h
    p :: ancestors q
termination_by p.text.length

theorem ancestors_of_parent?_eq_none {p : Path} (h : p.parent? = none) : p.ancestors = [p] := by
  rw [ancestors]
  split
  · rfl
  · cases h.symm.trans ‹_›

theorem ancestors_of_parent? {p q : Path} (h : p.parent? = some q) :
    p.ancestors = p :: q.ancestors := by
  rw [ancestors]
  split
  · cases h.symm.trans ‹_›
  · cases h.symm.trans ‹_›
    rfl

end Tangle.Path
