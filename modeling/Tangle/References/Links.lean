import Tangle.Line.Reference
import Tangle.Report
import Tangle.Store

/-!
# Links between chunks

The references in the code of a chunk are links from that chunk, the *parent*,
to others, its *children*. `Store.link` records all of them in the chunks,
unless a reference stands for no chunk at all: then nothing is recorded. A link
is recorded once, however often the parent refers to the child.
-/

namespace Tangle

namespace Store

/-- The names that the code of a chunk refers to, in order. -/
def references (c : Chunk) : List Name := c.body.filterMap fun l => (Reference.parse? l).map (·.name)

/-- The chunks that a chunk refers to, in the order of the first references. -/
def childrenOf (s : Store) (c : Chunk) : Except Error (List Key) := do
  let found ← (references c).mapM fun name =>
    match s.lookup name with
    | some child => .ok child.key
    | none => .error (.unresolved name c.name)
  return found.eraseDups

/-- All links of the store: parent and child. -/
def links (s : Store) : Except Error (List (Key × Key)) := do
  let found ← s.chunks.mapM fun c => do
    return (← s.childrenOf c).map (c.key, ·)
  return found.flatten

/-- The store with a link recorded in its parent and in its child. -/
def addLink (s : Store) (link : Key × Key) : Store :=
  (s.update link.1 (·.addChild link.2)).update link.2 (·.addParent link.1)

/-- Records all links, and tells how many there are. -/
def link (s : Store) : Report (Store × Nat) := do
  let links ← Report.ofExcept s.links
  Report.note (.linked links.length)
  return (links.foldl addLink s, links.length)

/-- The fragments that have no parent. -/
def unreferenced (s : Store) : List Chunk := s.fragments.filter (·.parents.isEmpty)

end Store

end Tangle
