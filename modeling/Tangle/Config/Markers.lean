import Tangle.Chunk.Name
import Tangle.Config.Comment
import Tangle.Location

/-!
# Anchors

An anchor is a comment in the output that says which line of a document the code
around it comes from. There is one before each occurrence of a chunk, one after
each reference that was replaced, and one after each occurrence. The *markers*
are the words that tell the last two from the first.
-/

namespace Tangle

/-- The words in anchors. -/
structure Markers where
  /-- The words after a reference that was replaced. -/
  continues : Text := "Continues".toList
  /-- The words after an occurrence. -/
  ends : Text := "End of".toList
deriving DecidableEq, Inhabited

namespace Markers

/-- The anchor before an occurrence. -/
def openAnchor (comment : Comment) (location : Location) (name : Name) : Text :=
  comment.wrap (location.text ++ " <".toList ++ name.text ++ ['>'])

/-- An anchor with words between the location and the name. -/
def wordAnchor (words : Text) (comment : Comment) (location : Location) (name : Name) : Text :=
  comment.wrap (location.text ++ ' ' :: words ++ " <".toList ++ name.text ++ ['>'])

/-- The anchor after a reference that was replaced. -/
def continueAnchor (m : Markers) : Comment → Location → Name → Text := wordAnchor m.continues

/-- The anchor after an occurrence. -/
def endAnchor (m : Markers) : Comment → Location → Name → Text := wordAnchor m.ends

end Markers

end Tangle
