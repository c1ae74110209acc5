import Tangle.Line.Directive
import Tangle.Report
import Tangle.Store

/-!
# Documents

A document interleaves prose with blocks of code. It is read line by line:

* outside a block every line is prose, but for one that opens a block;
* inside a block, a closing line ends it, a shebang line gives the shebang of
  the file chunk that the block belongs to, and every other line is code, also
  one that would open a block elsewhere;
* at its closing line a block becomes an occurrence of the chunk that it names:
  of a new chunk, or of one that is there already.

Reading stops at the first error. What was registered before stays registered.
A block without a closing line is dropped.
-/

namespace Tangle

/-- A block that is not closed yet. -/
structure Draft where
  /-- What the opening line says. -/
  opening : Opening
  /-- The code read so far. -/
  occurrence : Occurrence
  /-- The shebang read last, if it was not empty. -/
  shebang : Option Text := none
deriving DecidableEq, Inhabited

namespace Draft

/-- The key of the chunk that the block belongs to. -/
def key (d : Draft) : Key := ⟨d.opening.kind, d.opening.name⟩

/-- The new chunk that the block defines. -/
def chunk (d : Draft) : Chunk where
  name := d.opening.name
  language := d.opening.language
  role := match d.opening.kind with
    | .fragment => .fragment
    | .file => .file d.shebang
  occurrences := [d.occurrence]

/-- The event that a block gave the chunk another shebang than it had. -/
def shebangChange (d : Draft) (before : Option Text) : List Event :=
  match before, d.shebang with
  | some old, some new =>
    if old = new then [] else [.shebangChanged d.occurrence.location d.opening.name old new]
  | _, _ => []

/-- Registers the block. -/
def close (d : Draft) (s : Store) : Report Store :=
  let location := d.occurrence.location
  match d.opening.operator with
  | .define => ⟨[.defined location d.opening.kind d.opening.name], s.define d.chunk⟩
  | .extend =>
    match s.extend d.key d.occurrence with
    | .error e => ⟨[], .error e⟩
    | .ok extended =>
      ⟨d.shebangChange ((s.get? d.key).bind (·.shebang)) ++
          [.extended location d.opening.kind d.opening.name],
        .ok (match d.shebang with
          | none => extended
          | some text => extended.setShebang d.key text)⟩

end Draft

namespace Document

/-- What reading a document leaves behind. -/
structure Reading where
  /-- The store, with all that was registered. -/
  store : Store
  /-- The events noted. -/
  log : List Event
  /-- The number of blocks closed, or why reading stopped. -/
  outcome : Except Error Nat

/-- Reads the numbered lines of a document, given the block they start in. -/
def readLines (document : Path) : List (Nat × Text) → Option Draft → Store → Reading
  | [], none, s => ⟨s, [], .ok 0⟩
  | [], some d, s => ⟨s, [.neverClosed d.occurrence.location d.opening.kind d.opening.name], .ok 0⟩
  | (number, line) :: rest, none, s =>
    match Directive.classify line with
    | .opening o => readLines document rest (some ⟨o, ⟨⟨document, number⟩, []⟩, none⟩) s
    | _ => readLines document rest none s
  | (number, line) :: rest, some d, s =>
    match Directive.classify line with
    | .closing =>
      match d.close s with
      | ⟨log, .error e⟩ => ⟨s, log, .error e⟩
      | ⟨log, .ok s'⟩ =>
        let r := readLines document rest none s'
        ⟨r.store, log ++ r.log, r.outcome.map (· + 1)⟩
    | .shebang text =>
      match d.opening.kind with
      | .fragment => ⟨s, [], .error (.misplacedShebang d.opening.name ⟨document, number⟩)⟩
      | .file =>
        readLines document rest (some { d with shebang := if text = [] then none else some text }) s
    | .opening _ | .text =>
      readLines document rest (some { d with occurrence := d.occurrence.push number line }) s

/-- Reads a document into a store. -/
def read (document : Path) (text : Text) (s : Store) : Reading :=
  readLines document (Text.numbered text) none s

end Document

end Tangle
