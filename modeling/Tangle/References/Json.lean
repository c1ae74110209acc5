import Tangle.References.Tree
import Tangle.Text.Quoted

/-!
# Reference trees as JSON

A tree is an object with the kind and the name of its root, the mark of the root
if it has one, and the trees below it if there are any. Each element and each
member stands on a line of its own, two blanks deeper than what it is in.
-/

namespace Tangle.Json

/-- A character of a JSON string. -/
def escaped (c : Char) : Text :=
  if c = '"' then "\\\"".toList
  else if c = '\\' then "\\\\".toList
  else if c = '\x08' then "\\b".toList
  else if c = '\t' then "\\t".toList
  else if c = '\n' then "\\n".toList
  else if c = '\x0c' then "\\f".toList
  else if c = '\r' then "\\r".toList
  else if c.toNat < 0x10 then "\\u000".toList ++ Text.hexadecimal c.toNat
  else if c.toNat < 0x20 then "\\u00".toList ++ Text.hexadecimal c.toNat
  else [c]

/-- A JSON string. -/
def string (t : Text) : Text := '"' :: t.flatMap escaped ++ ['"']

/-- The blanks that a line at that depth starts with. -/
def indent (depth : Nat) : Text := List.replicate (2 * depth) ' '

/-- Lines between two brackets that stand at that depth. -/
def bracketed (depth : Nat) (opening closing : Char) (lines : List Text) : Text :=
  if lines = [] then [opening, closing]
  else
    opening :: '\n' :: Text.joinWith [',', '\n'] (lines.map (indent (depth + 1) ++ ·)) ++
      '\n' :: indent depth ++ [closing]

/-- A JSON array. -/
def array (depth : Nat) (elements : List Text) : Text := bracketed depth '[' ']' elements

/-- A JSON object. -/
def object (depth : Nat) (members : List (String × Text)) : Text :=
  bracketed depth '\x7b' '\x7d' (members.map fun (name, value) =>
    string name.toList ++ ':' :: ' ' :: value)

end Tangle.Json

namespace Tangle

/-- The trees as JSON objects. -/
def Forest.json (depth : Nat) : Forest → List Text
  | nil => []
  | cons root recursive below rest =>
    Json.object depth
      ([("kind", Json.string root.kind.word.toList), ("name", Json.string root.name.text)] ++
        (if recursive then [("recursive", "true".toList)] else []) ++
        (if below = nil then []
          else [("children", Json.array (depth + 1) (below.json (depth + 2)))])) ::
      rest.json depth

/-- The trees as a JSON array. -/
def Tree.json (trees : List Tree) : Text :=
  Json.array 0 (trees.flatMap fun t => t.toForest.json 1)

end Tangle
