import Tangle.Expansion.Basic

/-!
# Texts of one line

A text that has neither a carriage return nor a line feed is read as it was
written, wherever it is moved to (`OneLine.reread`). Here is what it takes for all
lines of an expansion to be such texts: the lines of code, the names of chunks and
the paths of documents of the store (`Store.OneLined`), and the comments and the
words in anchors of the configuration (`Config.OneLined`).
-/

namespace Tangle

namespace Text

/-- The text has neither a carriage return nor a line feed. -/
def OneLine (t : Text) : Prop := '\r' ∉ t ∧ '\n' ∉ t

instance (t : Text) : Decidable (OneLine t) := inferInstanceAs (Decidable (_ ∧ _))

@[simp]
theorem oneLine_nil : OneLine [] := ⟨List.not_mem_nil, List.not_mem_nil⟩

@[simp]
theorem oneLine_cons {c : Char} {t : Text} :
    OneLine (c :: t) ↔ (c ≠ '\r' ∧ c ≠ '\n') ∧ OneLine t := by
  simp only [OneLine, List.mem_cons, not_or, eq_comm, ne_eq]
  exact and_and_and_comm

@[simp]
theorem oneLine_append {t t' : Text} : OneLine (t ++ t') ↔ OneLine t ∧ OneLine t' := by
  simp only [OneLine, List.mem_append, not_or]
  exact and_and_and_comm

theorem OneLine.isPlain {t : Text} (h : OneLine t) : isPlain t = true := by
  fun_induction Text.isPlain t with
  | case1 => rfl
  | case2 => simp at h
  | case3 c rest _ ih =>
    obtain ⟨⟨_, hc⟩, hrest⟩ := oneLine_cons.1 h
    simp [hc, ih hrest]

/-- A text of one line is read as it was written. -/
theorem OneLine.reread {t : Text} (h : OneLine t) : reread t = [t] := by
  rw [Text.reread, if_pos h.isPlain]

theorem flatMap_reread {code : List Text} (h : ∀ t ∈ code, OneLine t) :
    code.flatMap reread = code := by
  induction code with
  | nil => rfl
  | cons t code ih =>
    rw [List.flatMap_cons, (h t List.mem_cons_self).reread,
      ih fun t' ht => h t' (List.mem_cons_of_mem _ ht)]
    rfl

/-- A number is written on one line. -/
theorem oneLine_decimal (n : Nat) : OneLine (decimal n) := by
  have hdigit {c : Char} (h : c ∈ decimal n) : c.isDigit :=
    Nat.isDigit_of_mem_toDigits (by omega) (by omega) h
  exact ⟨fun h => absurd (hdigit h) (by decide), fun h => absurd (hdigit h) (by decide)⟩

end Text

open Text

/-! ## Lines of code -/

/-- The code, the names and the paths of a chunk are on one line each. -/
structure Chunk.OneLined (c : Chunk) : Prop where
  /-- The name of the chunk. -/
  name : OneLine c.name.text
  /-- The paths of its documents. -/
  document : ∀ o ∈ c.occurrences, OneLine o.location.document.text
  /-- Its lines of code. -/
  body : ∀ o ∈ c.occurrences, ∀ line ∈ o.body, OneLine line.2

/-- All chunks of the store are on one line each. -/
def Store.OneLined (s : Store) : Prop := ∀ c ∈ s.chunks, c.OneLined

/-- The lines of code of an occurrence are those given to it. -/
theorem Occurrence.lines_of_oneLine {o : Occurrence} (h : ∀ line ∈ o.body, OneLine line.2) :
    o.lines = o.body := by
  have hlines : Text.lines o.text = o.body.map (·.2) := by
    rw [Occurrence.text, lines_unlines, flatMap_reread]
    intro t ht
    obtain ⟨line, hline, rfl⟩ := List.mem_map.1 ht
    exact h line hline
  rw [Occurrence.lines, hlines, List.zip_map']
  simp

theorem Reference.oneLine_of_parse? {line : Text} {r : Reference}
    (h : Reference.parse? line = some r) (hline : OneLine line) :
    OneLine r.indent ∧ OneLine r.trailing := by
  obtain ⟨hreturn, hnewline⟩ := hline
  obtain ⟨hi, ht⟩ := Reference.notMem_of_parse? h hreturn
  obtain ⟨hi', ht'⟩ := Reference.notMem_of_parse? h hnewline
  exact ⟨⟨hi, hi'⟩, ht, ht'⟩

/-! ## Anchors -/

/-- The delimiters of a comment are on one line each. -/
def Comment.OneLined : Comment → Prop
  | .line opening => OneLine opening
  | .block opening closing => OneLine opening ∧ OneLine closing

instance : (c : Comment) → Decidable c.OneLined
  | .line opening => inferInstanceAs (Decidable (OneLine opening))
  | .block opening closing => inferInstanceAs (Decidable (OneLine opening ∧ OneLine closing))

/-- The comments and the words in anchors are on one line each. -/
structure Config.OneLined (config : Config) : Prop where
  /-- The comments of languages that are not known. -/
  default : config.defaultComment.OneLined
  /-- The comments of languages that are configured. -/
  languages : ∀ l ∈ config.languages, l.comment.OneLined
  /-- The words after a reference. -/
  continues : OneLine config.markers.continues
  /-- The words after an occurrence. -/
  ends : OneLine config.markers.ends

theorem Comment.OneLined.wrap {c : Comment} {t : Text} (hc : c.OneLined) (ht : OneLine t) :
    OneLine (c.wrap t) := by
  cases c with
  | line opening => simpa [Comment.wrap, Comment.OneLined, ht] using hc
  | block opening closing => simpa [Comment.wrap, Comment.OneLined, ht] using hc

theorem Language.oneLined_known : ∀ l ∈ Language.known, l.comment.OneLined := by decide

theorem Config.OneLined.commentFor {config : Config} (h : config.OneLined) (tag : Text) :
    (config.commentFor tag).OneLined := by
  rw [Config.commentFor]
  split
  · rename_i l hl
    rcases List.mem_append.1 (List.mem_of_find?_eq_some hl) with hl | hl
    · exact h.languages l hl
    · exact Language.oneLined_known l hl
  · exact h.default

theorem Location.oneLine_text {l : Location} (h : OneLine l.document.text) : OneLine l.text := by
  simp [Location.text, h, oneLine_decimal]

namespace Unfolding

variable {config : Config} {c : Chunk} {l : Location}

theorem oneLine_openAnchor (h : config.OneLined) (hc : OneLine c.name.text)
    (hl : OneLine l.document.text) :
    OneLine (Markers.openAnchor (config.commentFor c.language) l c.name) :=
  (h.commentFor _).wrap (by simp [Location.oneLine_text hl, hc])

theorem oneLine_wordAnchor (h : config.OneLined) (hc : OneLine c.name.text)
    (hl : OneLine l.document.text) {words : Text} (hw : OneLine words) :
    OneLine (Markers.wordAnchor words (config.commentFor c.language) l c.name) :=
  (h.commentFor _).wrap (by simp [Location.oneLine_text hl, hc, hw])

end Unfolding

end Tangle
