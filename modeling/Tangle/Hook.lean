import Tangle.Chunk.Basic
import Tangle.Error
import Tangle.Text.Quoted

/-!
# Hooks

A hook amends the text of a file chunk before it is written: it may give a line
to be put in front of the text, and it may change the text. Hooks run one after
the other, each on the text that the one before it left; the lines in front keep
the order of the hooks.

The one hook of every run puts the shebang of a chunk in front of its text.
-/

namespace Tangle

/-- What a hook does to a text. -/
structure Amendment where
  /-- The line to put in front. -/
  lead : Option Text := none
  /-- The text from here on. -/
  content : Text
deriving DecidableEq, Inhabited

/-- A hook: it amends the text of a chunk, lets it be, or gives up. -/
structure Hook where
  /-- The name of the hook. -/
  name : Text
  /-- What the hook does to the text of a chunk. -/
  amend : Text → Chunk → Except Error (Option Amendment)

namespace Hook

/-- Puts the shebang of a chunk in front, if it is not empty. -/
def shebang : Hook where
  name := "shebang".toList
  amend content c := .ok (match c.shebang with
    | some text => if text = [] then none else some ⟨some text, content⟩
    | none => none)

/-- The hooks of every run. -/
def defaults : List Hook := [shebang]

/-- Runs the hooks: the lines to put in front, and the text that is left. -/
def amendAll (c : Chunk) : List Hook → Text → Except Error (List Text × Text)
  | [], content => .ok ([], content)
  | hook :: more, content =>
    match hook.amend content c with
    | .error e => .error e
    | .ok none => amendAll c more content
    | .ok (some a) =>
      match amendAll c more a.content with
      | .error e => .error e
      | .ok (leads, result) => .ok (a.lead.toList ++ leads, result)

/-- The text of a chunk after all hooks. -/
def run (hooks : List Hook) (content : Text) (c : Chunk) : Except Error Text :=
  match amendAll c hooks content with
  | .error e => .error e
  | .ok (leads, result) => .ok (leads.flatMap (· ++ ['\n']) ++ result)

/-- The names of the hooks, as a diagnostic text. -/
def describe (hooks : List Hook) : Text :=
  let names := Text.joinWith ", ".toList (hooks.map fun h => Text.quoted h.name)
  "HookRegistry \x7b hooks: [".toList ++ names ++ "] \x7d".toList

end Hook

end Tangle
