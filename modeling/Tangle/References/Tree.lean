import Tangle.Report
import Tangle.Store

/-!
# Reference trees

The *tree* of a chunk has the chunk at its root and the trees of its children
below, as far as links are recorded. A chunk that stands below itself is marked
and has nothing below it, so the tree is finite whatever the links are.

A *forest* is a list of trees, each given by its root, whether the root is
marked, and the forest below the root.
-/

namespace Tangle

/-- A list of trees. -/
inductive Forest
  /-- No tree. -/
  | nil
  /-- A first tree, with a root, its mark and what is below it; then the other
      trees. -/
  | cons (root : Key) (recursive : Bool) (below rest : Forest)
deriving DecidableEq, Inhabited

/-- A tree of chunks. -/
structure Tree where
  /-- The chunk at the root. -/
  root : Key
  /-- The root stands below itself. -/
  recursive : Bool
  /-- The trees below the root. -/
  below : Forest
deriving DecidableEq, Inhabited

namespace Forest

/-- The number of chunks in the trees. -/
def size : Forest → Nat
  | nil => 0
  | cons _ _ below rest => 1 + below.size + rest.size

/-- The trees as text, a line for each chunk, two blanks deeper at each level. -/
def render (depth : Nat) : Forest → Text
  | nil => []
  | cons root recursive below rest =>
    List.replicate (2 * depth) ' ' ++ root.text ++
      (if recursive then " (recursive)".toList else []) ++ '\n' :: render (depth + 1) below ++
      render depth rest

/-- The trees, from the first to the last. -/
def trees : Forest → List Tree
  | nil => []
  | cons root recursive below rest => ⟨root, recursive, below⟩ :: rest.trees

end Forest

namespace Tree

/-- The forest of this tree alone. -/
def toForest (t : Tree) : Forest := .cons t.root t.recursive t.below .nil

/-- The number of chunks in the tree. -/
def size (t : Tree) : Nat := t.toForest.size

/-- The tree as text. -/
def render (t : Tree) : Text := t.toForest.render 0

end Tree

namespace Store

/-- The number of keys of the store that are not on a path. -/
def unvisited (s : Store) (path : List Key) : Nat := s.keys.countP (· ∉ path)

/-- Going to a chunk of the store leaves fewer chunks to go to. -/
theorem unvisited_lt {s : Store} {path : List Key} {k : Key} (hk : k ∈ s.keys)
    (h : k ∉ path) : s.unvisited (path ++ [k]) < s.unvisited path :=
  countP_lt hk (fun x hx => by simp_all) (by simp [h]) (by simp)

/-- The trees of the given chunks, below a path from the root. -/
def forest (s : Store) (path : List Key) (roots : List Key) : Except Error Forest :=
  match roots with
  | [] => .ok .nil
  | k :: rest =>
    if hp : k ∈ path then return .cons k true .nil (← forest s path rest)
    else
      match hc : s.get? k with
      | none => .error (.unregistered k)
      | some c => do
        have : s.unvisited (path ++ [k]) < s.unvisited path :=
          unvisited_lt (mem_keys_of_get? hc) hp
        let below ← forest s (path ++ [k]) c.children
        return .cons k false below (← forest s path rest)
termination_by (s.unvisited path, roots.length)

/-- The tree of a chunk. -/
def tree (s : Store) (k : Key) : Except Error Tree :=
  match s.get? k with
  | none => .error (.unregistered k)
  | some c => return ⟨k, false, ← s.forest [k] c.children⟩

end Store

end Tangle
