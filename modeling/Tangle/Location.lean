import Tangle.Path.Basic

/-!
# Locations

A line of a document. Messages and anchors write it as `document:line`.
-/

namespace Tangle

/-- A line of a document. -/
structure Location where
  /-- The document. -/
  document : Path
  /-- The number of the line, from 1. -/
  line : Nat
deriving DecidableEq, Inhabited

namespace Location

/-- The location as it is written in messages and anchors. -/
def text (l : Location) : Text := l.document.text ++ ':' :: Text.decimal l.line

instance : ToString Location := ⟨fun l => String.ofList l.text⟩

/-- Another line of the same document. -/
def onLine (l : Location) (line : Nat) : Location := ⟨l.document, line⟩

end Location

end Tangle
