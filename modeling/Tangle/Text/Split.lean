import Tangle.Text.Blank

/-!
# Splitting at a separator

`split` gives the parts of a text between separators, one more than there are
separators, so joining the parts gives the text back (`joinWith_split`). Parts
without separators that are joined are what the text is split into
(`split_joinWith`).
-/

namespace Tangle.Text

/-- The parts of a text between separators. -/
def split (separator : Char) : Text → List Text
  | [] => [[]]
  | c :: rest =>
    if c = separator then [] :: split separator rest
    else match split separator rest with
      | [] => [[c]]
      | part :: more => (c :: part) :: more

theorem split_ne_nil (separator : Char) (t : Text) : split separator t ≠ [] := by
  fun_cases split separator t <;> simp

/-- A first part stands in front of the others and a separator. -/
theorem joinWith_cons {separator : Text} {parts : List Text} (part : Text) (h : parts ≠ []) :
    joinWith separator (part :: parts) = part ++ separator ++ joinWith separator parts := by
  cases parts with
  | nil => exact absurd rfl h
  | cons p more => rfl

/-- A character in front of the first part is one in front of the whole. -/
theorem joinWith_cons_cons (separator : Text) (c : Char) (part : Text) (more : List Text) :
    joinWith separator ((c :: part) :: more) = c :: joinWith separator (part :: more) := by
  cases more <;> rfl

/-- Splitting loses nothing but the separators. -/
theorem joinWith_split (separator : Char) (t : Text) :
    joinWith [separator] (split separator t) = t := by
  fun_induction split separator t with
  | case1 => rfl
  | case2 rest ih =>
    rw [joinWith_cons _ (split_ne_nil separator rest), ih]
    rfl
  | case3 c rest _ h => exact absurd h (split_ne_nil separator rest)
  | case4 c rest _ part more h ih => rw [joinWith_cons_cons, ← h, ih]

/-- A separator separates the parts before it from those after it. -/
theorem split_append (separator : Char) (s t : Text) :
    split separator (s ++ separator :: t) = split separator s ++ split separator t := by
  fun_induction split separator s with
  | case1 => simp [split]
  | case2 rest ih => simp [split, ih]
  | case3 c rest _ h => exact absurd h (split_ne_nil separator rest)
  | case4 c rest hc part more h ih => simp [split, hc, ih, h]

/-- The parts of a text that starts another one are parts of that one too, but for the last
    of them, which starts one. -/
theorem split_of_isPrefix {separator : Char} {s t : Text} (h : s <+: t) :
    ∃ front part start rest, split separator t = front ++ part :: rest ∧
      split separator s = front ++ [start] ∧ start <+: part := by
  induction s generalizing t with
  | nil =>
    obtain ⟨part, rest, hsplit⟩ := List.exists_cons_of_ne_nil (split_ne_nil separator t)
    exact ⟨[], part, [], rest, hsplit, rfl, List.nil_prefix⟩
  | cons c s ih =>
    obtain ⟨t, rfl, hst⟩ := List.cons_prefix_iff.1 h
    obtain ⟨front, part, start, rest, ht, hs, hstart⟩ := ih hst
    by_cases hc : c = separator
    · exact ⟨[] :: front, part, start, rest, by simp [split, hc, ht], by simp [split, hc, hs],
        hstart⟩
    · -- The character goes to the first part, which is the one that is cut off if there is
      -- none in front of it.
      cases front with
      | nil =>
        exact ⟨[], c :: part, c :: start, rest, by simp_all [split], by simp_all [split],
          List.cons_prefix_cons.2 ⟨rfl, hstart⟩⟩
      | cons first front =>
        exact ⟨(c :: first) :: front, part, start, rest, by simp_all [split],
          by simp_all [split], hstart⟩

theorem split_of_notMem {separator : Char} {t : Text} (h : separator ∉ t) :
    split separator t = [t] := by
  induction t with
  | nil => rfl
  | cons c t ih =>
    obtain ⟨hc, ht⟩ := not_or.1 (mt List.mem_cons.2 h)
    simp [split, Ne.symm hc, ih ht]

/-- The parts have no separator. -/
theorem notMem_of_mem_split {separator : Char} {t part : Text} (h : part ∈ split separator t) :
    separator ∉ part := by
  fun_induction split separator t generalizing part with
  | case1 => simp_all
  | case2 rest ih =>
    rcases List.mem_cons.1 h with rfl | h
    · exact List.not_mem_nil
    · exact ih h
  | case3 c rest _ hs => exact absurd hs (split_ne_nil separator rest)
  | case4 c rest hc first more hs ih =>
    rw [hs] at ih
    rcases List.mem_cons.1 h with rfl | h
    · have hfirst := ih List.mem_cons_self
      simp [hfirst, Ne.symm hc]
    · exact ih (List.mem_cons_of_mem _ h)

/-- Parts without separators are found again between the separators. -/
theorem split_joinWith {separator : Char} {parts : List Text} (hne : parts ≠ [])
    (h : ∀ part ∈ parts, separator ∉ part) :
    split separator (joinWith [separator] parts) = parts := by
  induction parts with
  | nil => exact absurd rfl hne
  | cons part parts ih =>
    obtain ⟨hpart, hparts⟩ := List.forall_mem_cons.1 h
    cases parts with
    | nil => exact split_of_notMem hpart
    | cons part' more =>
      rw [joinWith_cons part (List.cons_ne_nil _ _), List.append_assoc, List.singleton_append,
        split_append, split_of_notMem hpart, ih (List.cons_ne_nil _ _) hparts]
      rfl

end Tangle.Text
