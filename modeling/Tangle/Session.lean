import Tangle.Document
import Tangle.Expansion.Basic
import Tangle.Plan
import Tangle.References.Links
import Tangle.References.Tree
import Tangle.Workspace

/-!
# Sessions

A session holds the chunks of the documents read so far. To *tangle* it is to
plan, for every file chunk in the order of definition, that its output file has
the final text of the chunk. Nothing is written; the plan can be performed
afterwards.

The error of tangling is that of the first file chunk that has one: its name is
no path inside the output directory, its references go in a circle, a hook gives
up, or its output file cannot be looked at.
-/

namespace Tangle

/-- The documents read so far. -/
structure Session where
  /-- The chunks of the documents. -/
  store : Store := {}
  /-- The documents, in the order in which they were read. -/
  documents : List Path := []
deriving DecidableEq, Inhabited

/-- What tangling comes to. -/
structure Tangling where
  /-- The files to be written. -/
  plan : Plan := {}
  /-- The references that stand for nothing. -/
  unresolved : List Unresolved := []
  /-- The number of file chunks. -/
  files : Nat := 0
deriving DecidableEq, Inhabited

namespace Session

/-- Reads a document into a session. A document with an error is not listed, but
    what was registered before the error stays. -/
def parse (s : Session) (path : Path) (text : Text) : Session × Report Nat :=
  let r := Document.read path text s.store
  let documents := match r.outcome with
    | .ok _ => s.documents ++ [path]
    | .error _ => s.documents
  (⟨r.store, documents⟩, ⟨r.log, r.outcome⟩)

/-- Reads documents of a library into a session, up to the first error. -/
def readAll (library : Library) : List Path → Session → Report Session
  | [], s => return s
  | path :: more, s =>
    match library.read path with
    | .error fault => Report.fail (.disk fault)
    | .ok text => do
      let (s', r) := s.parse path text
      let _ ← r
      readAll library more s'

/-- A session with the given documents of a workspace. -/
def load (w : Workspace) (documents : List Path) : Report Session := do
  let s ← readAll w.library documents {}
  Report.note (.parsed s.documents.length s.store.size)
  return s

/-- The content of the output file of a file chunk, and the references that stand
    for nothing in it. -/
def render (s : Session) (w : Workspace) (c : Chunk) : Report (Text × List Unresolved) := do
  let x ← c.expand s.store w.config
  let content ← Report.ofExcept (Hook.run w.hooks x.text c)
  return (content, x.unresolved)

/-- Tangles file chunks, one after the other. -/
def tangleFiles (s : Session) (w : Workspace) (d : Disk) :
    List Chunk → Tangling → Report Tangling
  | [], t => return t
  | c :: more, t => do
    let path ← Report.ofExcept (w.target c.name)
    let (content, unresolved) ← s.render w c
    let plan ← t.plan.write d path content
    tangleFiles s w d more ⟨plan, t.unresolved ++ unresolved, t.files + 1⟩

/-- Tangles a session. -/
def tangle (s : Session) (w : Workspace) (d : Disk) : Report Tangling := do
  let t ← s.tangleFiles w d s.store.files {}
  if t.unresolved ≠ [] then Report.note (.unresolvedTotal t.unresolved.length)
  return t

/-- Links the chunks, and gives the tree of each file chunk. -/
def trees (s : Session) : Session × Report (List Tree) :=
  let linked := s.store.link
  match linked.outcome with
  | .error e => (s, ⟨linked.log, .error e⟩)
  | .ok (store, _) =>
    ({ s with store }, ⟨linked.log, store.files.mapM fun c => store.tree c.key⟩)

end Session

namespace Workspace

/-- Tangles the given documents. -/
def tangle (w : Workspace) (d : Disk) (documents : List Path) : Report Tangling := do
  (← Session.load w documents).tangle w d

/-- Tangles all documents. -/
def tangleAll (w : Workspace) (d : Disk) : Report Tangling := do
  w.tangle d (← Report.ofExcept w.documents)

end Workspace

end Tangle
