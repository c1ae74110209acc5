import Tangle.Chunk.Key
import Tangle.Chunk.Occurrence

/-!
# Chunks

A chunk is a named piece of code. Its code is that of its *occurrences*, in the
order in which they were read, and it is written in the language of the first
one. A file chunk may have a *shebang*, the line to put in front of the output
file.

Once the references between chunks are linked, a chunk also knows the chunks
that refer to it, its *parents*, and those it refers to, its *children*.
-/

namespace Tangle

/-- What a chunk is for. -/
inductive Role
  /-- To be referred to. -/
  | fragment
  /-- To be written to a file, after the shebang if there is one. -/
  | file (shebang : Option Text)
deriving DecidableEq, Inhabited

/-- The kind of a chunk with that role. -/
def Role.kind : Role → Kind
  | fragment => .fragment
  | file _ => .file

/-- A named piece of code. -/
structure Chunk where
  /-- The name of the chunk. -/
  name : Name
  /-- The tag of the language it is written in. -/
  language : Text
  /-- What it is for. -/
  role : Role
  /-- The blocks it consists of. -/
  occurrences : List Occurrence
  /-- The chunks that refer to it. -/
  parents : List Key := []
  /-- The chunks it refers to. -/
  children : List Key := []
deriving DecidableEq, Inhabited

namespace Chunk

/-- The kind of the chunk. -/
def kind (c : Chunk) : Kind := c.role.kind

/-- The key of the chunk. -/
def key (c : Chunk) : Key := ⟨c.kind, c.name⟩

/-- The shebang, which only a file chunk has. -/
def shebang (c : Chunk) : Option Text :=
  match c.role with
  | .fragment => none
  | .file shebang => shebang

/-- The chunk with another shebang, if it is a file chunk. -/
def setShebang (c : Chunk) (text : Text) : Chunk :=
  match c.role with
  | .fragment => c
  | .file _ => { c with role := .file (some text) }

/-- The chunk with one more occurrence. -/
def append (c : Chunk) (o : Occurrence) : Chunk :=
  { c with occurrences := c.occurrences ++ [o] }

/-- All lines of code of the chunk. -/
def body (c : Chunk) : List Text := c.occurrences.flatMap fun o => Text.lines o.text

/-- The chunk with one more parent, unless it has it. -/
def addParent (c : Chunk) (k : Key) : Chunk :=
  if k ∈ c.parents then c else { c with parents := c.parents ++ [k] }

/-- The chunk with one more child, unless it has it. -/
def addChild (c : Chunk) (k : Key) : Chunk :=
  if k ∈ c.children then c else { c with children := c.children ++ [k] }

end Chunk

end Tangle
