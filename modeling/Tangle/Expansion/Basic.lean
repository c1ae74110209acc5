import Tangle.Config.Basic
import Tangle.Expansion.Unfolding

/-!
# Expansion

The *expansion* of a chunk is its final text: the lines of its unfolding, where
the text of a chunk that takes the place of a reference is moved to the
indentation of that reference. If the configuration asks for anchors, there is
one before and one after each occurrence, and one after each reference that was
replaced, at its indentation.

What follows a reference on its line is kept, if it is not blank. It becomes a
line of its own if there are anchors, or if there is no code that it could
follow; otherwise it is put at the end of the last line of the code.

Every line of an expansion ends with a line feed. Each time that code is moved,
its text is read again line by line, so a line feed in an anchor makes two lines
of it, and a carriage return at the end of a line is lost.
-/

namespace Tangle

/-- A reference to a chunk that is not defined. -/
structure Unresolved where
  /-- The name that is not defined. -/
  name : Name
  /-- The chunk with the reference. -/
  parent : Name
  /-- The line of the reference. -/
  location : Location
deriving DecidableEq, Inhabited

/-- The final text of a chunk. -/
structure Expansion where
  /-- The text. -/
  text : Text
  /-- The references that stand for nothing in it. -/
  unresolved : List Unresolved
deriving DecidableEq, Inhabited

namespace Unfolding

/-- The lines of a chunk, at an indentation, read again before they are moved. -/
def indented (indent : Text) (code : List Text) : List Text :=
  (code.flatMap Text.reread).map (indent ++ ·)

/-- An anchor, at an indentation, if the configuration asks for anchors. -/
def anchor (config : Config) (indent : Text) (c : Chunk) (location : Location)
    (words : Comment → Location → Name → Text) : List Text :=
  if config.anchored then [indent ++ words (config.commentFor c.language) location c.name] else []

/-- The lines, with a text at the end of the last one. -/
def followed (code : List Text) (text : Text) : List Text :=
  code.dropLast ++ [code.getLastD [] ++ text]

/-- The lines that take the place of a reference, given the lines of the chunk
    that it stands for. -/
def replaced (config : Config) (r : Reference) (code : List Text) : List Text :=
  let block := indented r.indent code
  if !r.hasTrailing then block
  else if config.anchored || code.isEmpty then block ++ [r.indent ++ r.trailing]
  else followed block r.trailing

/-- The lines of the unfolding of a chunk. -/
def render (config : Config) (c : Chunk) : Unfolding → List Text
  | done => []
  | begins location rest =>
    anchor config [] c location Markers.openAnchor ++ render config c rest
  | ends location rest =>
    anchor config [] c location config.markers.endAnchor ++ render config c rest
  | plain text rest => text :: render config c rest
  | missing r _ resume rest =>
    replaced config r [] ++ anchor config r.indent c resume config.markers.continueAnchor ++
      render config c rest
  | inserted r child inside resume rest =>
    replaced config r (render config child inside) ++
      anchor config r.indent c resume config.markers.continueAnchor ++ render config c rest

/-- The references of the unfolding of a chunk that stand for nothing. -/
def unresolved (parent : Name) : Unfolding → List Unresolved
  | done => []
  | begins _ rest | ends _ rest | plain _ rest => unresolved parent rest
  | missing r location _ rest => ⟨r.name, parent, location⟩ :: unresolved parent rest
  | inserted _ child inside _ rest => unresolved child.name inside ++ unresolved parent rest

end Unfolding

/-- The final text of a chunk. -/
def Chunk.expand (c : Chunk) (s : Store) (config : Config) : Report Expansion := do
  let u ← c.unfolding s
  return ⟨Text.unlines (u.render config c), u.unresolved c.name⟩

end Tangle
