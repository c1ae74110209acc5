import Tangle.Chunk.Basic
import Mathlib.Data.List.Basic

/-!
# Lines without line feeds

A line that is read from a text has no line feed in it (`newline_notMem_of_mem_lines`).
If it is written and read again, it is still one line, and all that it can lose is a
carriage return at its end (`reread_of_newline_notMem`).

So if the lines given to an occurrence have no line feeds, then each of them is a
line of the text of the occurrence, with its number (`Occurrence.map_snd_lines`): the
lines of the chunk with their numbers and those without are the same lines.
-/

namespace Tangle

namespace Text

/-- The text without a carriage return at its end. -/
def chomp (t : Text) : Text := if t.getLast? = some '\r' then t.dropLast else t

theorem chomp_cons {c : Char} {t : Text} (h : ¬(c = '\r' ∧ t = [])) :
    chomp (c :: t) = c :: chomp t := by
  cases t with
  | nil =>
    have hc : c ≠ '\r' := fun e => h ⟨e, rfl⟩
    simp [chomp, hc]
  | cons d t =>
    simp only [chomp, List.getLast?_cons_cons, List.dropLast_cons_cons]
    split <;> rfl

theorem chomp_append_cons {c : Char} (h : c ≠ '\r') (t u : Text) :
    chomp (t ++ c :: u) = t ++ c :: chomp u := by
  induction t with
  | nil => exact chomp_cons fun e => h e.1
  | cons d t ih => rw [List.cons_append, chomp_cons (by simp), ih, List.cons_append]

theorem eq_chomp_or (t : Text) : t = chomp t ∨ t = chomp t ++ ['\r'] := by
  rw [chomp]
  split
  · rename_i h
    exact .inr (List.dropLast_append_getLast? _ h).symm
  · exact .inl rfl

theorem reread_eq_lines (t : Text) : reread t = lines (t ++ ['\n']) := by
  rw [reread]
  split
  · exact (lines_append_newline ‹_›).symm
  · rfl

/-- A line without line feeds is read as one line, without its final carriage
    return. -/
theorem reread_of_newline_notMem {t : Text} (h : '\n' ∉ t) : reread t = [chomp t] := by
  rw [reread_eq_lines]
  induction t with
  | nil => rfl
  | cons c t ih =>
    obtain ⟨hc, ht⟩ := not_or.1 (mt List.mem_cons.2 h)
    by_cases hr : c = '\r' ∧ t = []
    · obtain ⟨rfl, rfl⟩ := hr
      rfl
    · have hhead : c = '\r' → (t ++ ['\n']).head? ≠ some '\n' :=
        head?_append_ne _ (fun rest _ e => ht (by simp [e])) hr
      rw [List.cons_append, lines_cons (Ne.symm hc) hhead, ih ht, chomp_cons hr]

theorem flatMap_reread_of_newline_notMem {code : List Text} (h : ∀ t ∈ code, '\n' ∉ t) :
    code.flatMap reread = code.map chomp := by
  rw [List.map_eq_flatMap]
  exact List.flatMap_congr fun t ht => reread_of_newline_notMem (h t ht)

/-- The lines of a text have no line feeds. -/
theorem newline_notMem_of_mem_lines {t line : Text} (h : line ∈ lines t) : '\n' ∉ line := by
  fun_induction lines t generalizing line with
  | case1 => exact absurd h List.not_mem_nil
  | case2 rest ih | case3 rest ih =>
    rcases List.mem_cons.1 h with rfl | h
    · exact List.not_mem_nil
    · exact ih h
  | case4 c rest hc hr _ ih =>
    rw [List.mem_singleton.1 h]
    simpa [eq_comm] using hc
  | case5 c rest hc hr first more hl ih =>
    rw [hl] at ih
    rcases List.mem_cons.1 h with rfl | h
    · exact fun hm => (List.mem_cons.1 hm).elim (fun e => hc e.symm) (ih List.mem_cons_self)
    · exact ih (List.mem_cons_of_mem _ h)

theorem newline_notMem_of_mem_numbered {t : Text} {line : Nat × Text} (h : line ∈ numbered t) :
    '\n' ∉ line.2 := by
  obtain ⟨numbered, hmem, rfl⟩ := List.mem_map.1 h
  exact newline_notMem_of_mem_lines (List.fst_mem_of_mem_zipIdx hmem)

end Text

/-! ## Occurrences -/

theorem Occurrence.newline_notMem_of_mem_lines {o : Occurrence} {line : Nat × Text}
    (h : line ∈ o.lines) : '\n' ∉ line.2 :=
  Text.newline_notMem_of_mem_lines (List.of_mem_zip h).2

/-- The lines given to the occurrence have no line feeds. -/
def Occurrence.Unbroken (o : Occurrence) : Prop := ∀ line ∈ o.body, '\n' ∉ line.2

/-- The lines of the text of an occurrence are those given to it, without final carriage
    returns. -/
theorem Occurrence.lines_text {o : Occurrence} (h : o.Unbroken) :
    Text.lines o.text = o.body.map fun line => Text.chomp line.2 := by
  rw [Occurrence.text, Text.lines_unlines,
    Text.flatMap_reread_of_newline_notMem (List.forall_mem_map.2 h), List.map_map]
  rfl

/-- Each line of an occurrence has the number that was given to it. -/
theorem Occurrence.lines_eq {o : Occurrence} (h : o.Unbroken) :
    o.lines = o.body.map fun line => (line.1, Text.chomp line.2) := by
  rw [Occurrence.lines, lines_text h, List.zip_map']

/-- No line is lost if the lines of an occurrence get their numbers. -/
theorem Occurrence.map_snd_lines {o : Occurrence} (h : o.Unbroken) :
    o.lines.map (·.2) = Text.lines o.text := by
  rw [Occurrence.lines]
  exact List.map_snd_zip (by simp [lines_text h])

/-- The lines of a chunk with their numbers are its lines. -/
theorem Chunk.mem_body_iff {c : Chunk} (h : ∀ o ∈ c.occurrences, o.Unbroken) {text : Text} :
    text ∈ c.body ↔ ∃ o ∈ c.occurrences, ∃ line ∈ o.lines, line.2 = text := by
  rw [Chunk.body, List.mem_flatMap]
  refine exists_congr fun o => and_congr_right fun ho => ?_
  rw [← Occurrence.map_snd_lines (h o ho), List.mem_map]

end Tangle
