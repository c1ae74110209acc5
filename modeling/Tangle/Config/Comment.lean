import Tangle.Text.Blank

/-!
# Comments

How a language writes a comment: after an opening, up to the end of the line, or
between an opening and a closing.
-/

namespace Tangle

/-- How a language writes a comment. -/
inductive Comment
  /-- Up to the end of the line. -/
  | line (opening : Text)
  /-- Between two delimiters. -/
  | block (opening closing : Text)
deriving DecidableEq

namespace Comment

instance : Inhabited Comment := ⟨.line ['#']⟩

/-- The comment with the given content. -/
def wrap : Comment → Text → Text
  | line opening, t => opening ++ ' ' :: t
  | block opening closing, t => opening ++ ' ' :: (t ++ ' ' :: closing)

end Comment

end Tangle
