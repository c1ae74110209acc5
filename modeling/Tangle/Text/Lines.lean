import Tangle.Text.Blank

/-!
# Lines

A text is read line by line. A line ends at a line feed, together with the
carriage return right before it if there is one; the end of the text ends the
last line, which is there only if it is not empty. A carriage return anywhere
else is a character like any other, also at the very end of the text.

* `lines` splits a text into its lines.
* `unlines` writes each line with a line feed after it.
* `reread` is what becomes of a line that is written and read again. The lines of
  written lines are found line by line (`lines_unlines`).
-/

namespace Tangle.Text

/-- The lines of a text, without what ends them. -/
def lines : Text → List Text
  | [] => []
  | '\n' :: rest => [] :: lines rest
  | '\r' :: '\n' :: rest => [] :: lines rest
  | c :: rest =>
    match lines rest with
    | [] => [[c]]
    | line :: more => (c :: line) :: more

/-- The lines, each followed by a line feed. -/
def unlines : List Text → Text
  | [] => []
  | line :: more => line ++ '\n' :: unlines more

/-- The line has no line feed in it, and no carriage return ends it. -/
def isPlain : Text → Bool
  | [] => true
  | ['\r'] => false
  | c :: rest => c != '\n' && isPlain rest

/-- The lines that are read where a line was written: the line itself if it is
    plain. -/
def reread (line : Text) : List Text :=
  if isPlain line then [line] else lines (line ++ ['\n'])

/-- The lines of a text with their numbers, from 1. -/
def numbered (t : Text) : List (Nat × Text) :=
  (lines t).zipIdx 1 |>.map fun (line, number) => (number, line)

/-- A text that is not empty has a line. -/
theorem lines_eq_nil_iff (t : Text) : lines t = [] ↔ t = [] := by
  constructor
  · intro h
    unfold lines at h
    split at h
    · rfl
    · simp at h
    · simp at h
    · split at h <;> simp at h
  · rintro rfl
    rfl

/-- A character other than those that end a line belongs to the first line. -/
theorem lines_cons {c : Char} {t : Text} (hc : c ≠ '\n') (hr : c = '\r' → t.head? ≠ some '\n') :
    lines (c :: t) = match lines t with
      | [] => [[c]]
      | line :: more => (c :: line) :: more := by
  rw [lines]
  · exact fun h => hc h
  · intro rest h ht
    exact hr h (by simp [ht])

/-- The character belongs to the first line also if more text follows. -/
theorem head?_append_ne {c : Char} {s : Text} (t : Text)
    (hr : ∀ rest, c = '\r' → s = '\n' :: rest → False) (hs : ¬(c = '\r' ∧ s = [])) :
    c = '\r' → (s ++ t).head? ≠ some '\n' := by
  intro hc
  cases s with
  | nil => exact absurd ⟨hc, rfl⟩ hs
  | cons d s =>
    intro h
    exact hr s hc (by simpa using h)

/-- A line feed separates the lines before it from those after it. -/
theorem lines_append (s t : Text) :
    lines (s ++ '\n' :: t) = lines (s ++ ['\n']) ++ lines t := by
  have step (c : Char) (rest : Text) (hc : c = '\n' → False)
      (hr : ∀ r, c = '\r' → rest = '\n' :: r → False)
      (ih : lines (rest ++ '\n' :: t) = lines (rest ++ ['\n']) ++ lines t) :
      lines (c :: rest ++ '\n' :: t) = lines (c :: rest ++ ['\n']) ++ lines t := by
    by_cases h : c = '\r' ∧ rest = []
    · simp [h, lines]
    · rw [List.cons_append, List.cons_append, lines_cons hc (head?_append_ne _ hr h),
        lines_cons hc (head?_append_ne _ hr h), ih]
      cases hl : lines (rest ++ ['\n']) with
      | nil => simp [lines_eq_nil_iff] at hl
      | cons line more => rfl
  fun_induction lines s with
  | case1 => simp [lines]
  | case2 rest ih => simp [lines, ih]
  | case3 rest ih => simp [lines, ih]
  | case4 c rest hc hr _ ih => exact step c rest hc hr ih
  | case5 c rest hc hr _ _ _ ih => exact step c rest hc hr ih

/-- A plain line is read as it was written. -/
theorem lines_append_newline {line : Text} (h : isPlain line = true) :
    lines (line ++ ['\n']) = [line] := by
  fun_induction isPlain line with
  | case1 => rfl
  | case2 => simp at h
  | case3 c rest hr ih =>
    simp only [Bool.and_eq_true, bne_iff_ne] at h
    have hhead : c = '\r' → (rest ++ ['\n']).head? ≠ some '\n' := by
      intro hc
      cases rest with
      | nil => exact absurd rfl (hr hc)
      | cons d rest =>
        intro hd
        simp_all [isPlain]
    rw [List.cons_append, lines_cons h.1 hhead, ih h.2]

/-- What becomes of written lines is found line by line. -/
theorem lines_unlines (ls : List Text) : lines (unlines ls) = ls.flatMap reread := by
  induction ls with
  | nil => rfl
  | cons line more ih =>
    rw [unlines, lines_append, ih, List.flatMap_cons]
    congr 1
    rw [reread]
    split
    · exact lines_append_newline ‹_›
    · rfl

end Tangle.Text
