import Tangle.Line.Bracketed

/-!
# Directives

A directive fills a whole line of a document; blanks at its ends do not count:

* `@<name@> = tag` opens a block that defines the fragment of that name, in the
  language of that tag; `@(name@) = tag` opens one that defines a file. With
  `=+` in place of `=` the block is one more occurrence of a chunk defined
  before.
* `@` closes the block.
* `@shebang text` gives the first line of an output file.

Any other line is text: prose outside a block, code inside one. No line is two
directives, so the order in which `classify` tries them does not matter. A tag
starts with no `+`, which is why `=+` never defines.
-/

namespace Tangle

/-- How a block contributes to the chunk it names. -/
inductive Operator
  /-- `=`: the block defines a new chunk. -/
  | define
  /-- `=+`: the block is one more occurrence of a chunk. -/
  | extend
deriving DecidableEq, Inhabited

/-- The operator as it is written. -/
def Operator.text : Operator → String
  | define => "="
  | extend => "=+"

/-- The line that opens a block. -/
structure Opening where
  /-- The kind of the chunk. -/
  kind : Kind
  /-- The name of the chunk. -/
  name : Name
  /-- How the block contributes to the chunk. -/
  operator : Operator
  /-- The tag of the language. -/
  language : Text
deriving DecidableEq, Inhabited

/-- What a line of a document is. -/
inductive Directive
  /-- It opens a block. -/
  | opening (o : Opening)
  /-- It closes a block. -/
  | closing
  /-- It gives the shebang, which may be empty. -/
  | shebang (text : Text)
  /-- It is prose or code. -/
  | text
deriving DecidableEq, Inhabited

namespace Directive

/-- The language tag that fills a text but for blanks at its ends. -/
def tag? (t : Text) : Option Text :=
  let t := Text.trimStart t
  let tag := t.takeWhile fun c => !Text.isBlank c
  if tag ≠ [] ∧ tag.head? ≠ some '+' ∧ Text.allBlank (t.dropWhile fun c => !Text.isBlank c) then
    some tag
  else none

/-- The operator at the start of a text, with what follows it. -/
def operator? : Text → Option (Operator × Text)
  | '=' :: '+' :: rest => some (.extend, rest)
  | '=' :: rest => some (.define, rest)
  | _ => none

/-- Reads a line, without its leading blanks, as one that opens a block. -/
def opening? (kind : Kind) (t : Text) : Option Opening := do
  let (name, rest) ← Line.bracketed? kind t
  let (operator, rest) ← operator? (Text.trimStart rest)
  let language ← tag? rest
  return ⟨kind, .ofText name, operator, language⟩

/-- Reads a line, without its leading blanks, as a shebang. -/
def shebang? : Text → Option Text
  | '@' :: 's' :: 'h' :: 'e' :: 'b' :: 'a' :: 'n' :: 'g' :: rest =>
    let given := Text.trimStart rest
    if '\n' ∈ given then none else some (Text.trimEnd given)
  | _ => none

/-- The line, without its leading blanks, closes a block. -/
def isClosing : Text → Bool
  | '@' :: rest => Text.allBlank rest
  | _ => false

/-- What a line of a document is. -/
def classify (line : Text) : Directive :=
  let t := Text.trimStart line
  if isClosing t then .closing
  else match shebang? t with
    | some given => .shebang given
    | none =>
      match opening? .fragment t <|> opening? .file t with
      | some o => .opening o
      | none => .text

end Directive

end Tangle
