import Tangle.Chunk.Name

/-!
# Kinds and keys of chunks

There are two *kinds* of chunks: a *fragment* is a piece of code to be used by
others, and a *file* becomes an output file. Names are unique among the chunks
of a kind only, so what identifies a chunk is its *key*: the kind together with
the name. A key is written as a document writes it, `@<name@>` for a fragment
and `@(name@)` for a file.
-/

namespace Tangle

/-- The kind of a chunk, in the order in which chunks are listed. -/
inductive Kind
  /-- A piece of code for other chunks to refer to. -/
  | fragment
  /-- The content of an output file. -/
  | file
deriving DecidableEq, Ord, Inhabited

namespace Kind

/-- The word for a kind in messages. -/
def word : Kind → String
  | fragment => "fragment"
  | file => "file"

instance : ToString Kind := ⟨word⟩

/-- The character after the `@` in front of a name. -/
def opening : Kind → Char
  | fragment => '<'
  | file => '('

/-- The character after the `@` behind a name. -/
def closing : Kind → Char
  | fragment => '>'
  | file => ')'

end Kind

/-- What identifies a chunk. -/
structure Key where
  /-- The kind of the chunk. -/
  kind : Kind
  /-- The name of the chunk. -/
  name : Name
deriving DecidableEq, Inhabited

namespace Key

/-- The key as a document writes it. -/
def text (k : Key) : Text :=
  '@' :: k.kind.opening :: (k.name.text ++ ['@', k.kind.closing])

instance : ToString Key := ⟨fun k => String.ofList k.text⟩

/-- Fragments before files, then by name. -/
def le (a b : Key) : Bool :=
  ((compare a.kind b.kind).then (compare a.name.text b.name.text)).isLE

/-- The keys in order, each once. -/
def sorted (keys : List Key) : List Key := keys.eraseDups.mergeSort le

end Key

end Tangle
