import Tangle.Disk.Search

/-!
# Libraries of documents

Where documents come from: what a pattern finds, and what a path reads. A library
is a directory of a disk (`Disk.library`) or a list of texts held in memory
(`Shelf.library`).

A *shelf* holds its texts in the order of their paths. Paths that are alike name
the same text; the one given first stays. A pattern is matched against the whole
path as it is written.
-/

namespace Tangle

/-- A source of documents. -/
structure Library where
  /-- The documents that a pattern describes, in order. -/
  find : Text → Except Disk.Fault (List Path)
  /-- The text of a document. -/
  read : Path → Except Disk.Fault Text

/-- The documents of a directory. -/
def Disk.library (d : Disk) (base : Path) : Library where
  find pattern := d.findFiles base pattern
  read path := d.read (base.join path)

/-- Texts held in memory, by their paths. -/
structure Shelf where
  /-- The texts, in the order of their paths. -/
  texts : List (Path × Text) := []
deriving DecidableEq, Inhabited

namespace Shelf

/-- The texts with one more, or with another text under a path that is alike. -/
def insert (path : Path) (text : Text) : List (Path × Text) → List (Path × Text)
  | [] => [(path, text)]
  | (p, t) :: more =>
    if p.alike path then (p, text) :: more
    else if path.le p then (path, text) :: (p, t) :: more
    else (p, t) :: insert path text more

/-- The shelf with one more text. -/
def add (s : Shelf) (path : Path) (text : Text) : Shelf := ⟨insert path text s.texts⟩

/-- The shelf with the given texts, added one after the other. -/
def ofList (texts : List (Path × Text)) : Shelf :=
  texts.foldl (fun s (path, text) => s.add path text) {}

/-- The paths that a pattern describes. -/
def find (s : Shelf) (pattern : Text) : Except Disk.Fault (List Path) :=
  match Glob.parse pattern with
  | .error fault => .error (.badPattern fault)
  | .ok tokens => .ok ((s.texts.map (·.1)).filter fun p => tokens.accepts p.text)

/-- The text under a path. -/
def read (s : Shelf) (path : Path) : Except Disk.Fault Text :=
  match s.texts.find? fun entry => entry.1.alike path with
  | some (_, text) => .ok text
  | none => .error (.noDocument path)

/-- The documents on the shelf. -/
def library (s : Shelf) : Library := ⟨s.find, s.read⟩

end Shelf

end Tangle
