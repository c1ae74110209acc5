import Tangle.Location
import Tangle.Text.Lines

/-!
# Occurrences

An *occurrence* is one block of a document that contributes to a chunk: the
location of the line that opens it, and its body, the lines of the block that
are code, each with its number in the document. Directives inside a block are
not part of the body, so the numbers may have gaps.

The body of a block is also one text (`text`), and `lines` are the lines of that
text with the numbers given to them. For a body whose lines have no line feed,
the two agree but for a carriage return at the end of a line.
-/

namespace Tangle

/-- A block of a document that contributes to a chunk. -/
structure Occurrence where
  /-- The line that opens the block. -/
  location : Location
  /-- The lines of code, with their numbers in the document. -/
  body : List (Nat × Text) := []
deriving DecidableEq, Inhabited

namespace Occurrence

/-- The occurrence with one more line of code. -/
def push (o : Occurrence) (number : Nat) (line : Text) : Occurrence :=
  { o with body := o.body ++ [(number, line)] }

/-- The number of lines of code given. -/
def count (o : Occurrence) : Nat := o.body.length

/-- The body as one text. -/
def text (o : Occurrence) : Text := Text.unlines (o.body.map (·.2))

/-- The lines of the body's text, with the numbers given to them. -/
def lines (o : Occurrence) : List (Nat × Text) := (o.body.map (·.1)).zip (Text.lines o.text)

/-- The line `offset` lines after the opening one. -/
def shifted (o : Occurrence) (offset : Nat) : Nat := o.location.line + offset

/-- The line after as many lines as the body has. -/
def endLine (o : Occurrence) : Nat := o.shifted (o.count + 1)

end Occurrence

end Tangle
