import Tangle.Text.Blank

/-!
# Names of chunks

Blanks around a name do not count, so a name is a text that has none: names are
equal exactly if they are the same text once trimmed.
-/

namespace Tangle

/-- The name of a chunk, without blanks at its ends. -/
structure Name where
  /-- The text of the name. -/
  text : Text
  /-- No blanks surround the name. -/
  trimmed : Text.trim text = text
deriving DecidableEq

namespace Name

/-- The name that a text gives once trimmed. -/
def ofText (t : Text) : Name := ⟨Text.trim t, Text.trim_trim t⟩

instance : Inhabited Name := ⟨⟨[], rfl⟩⟩

instance : ToString Name := ⟨fun n => String.ofList n.text⟩

theorem ext_text {m n : Name} (h : m.text = n.text) : m = n := by
  cases m
  cases n
  simpa using h

@[simp]
theorem text_ofText (t : Text) : (ofText t).text = Text.trim t := rfl

@[simp]
theorem ofText_text (n : Name) : ofText n.text = n := ext_text n.trimmed

end Name

end Tangle
