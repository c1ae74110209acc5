import Tangle.Disk.Fault
import Tangle.Text.Bytes

/-!
# Disks

A disk holds files and directories, by their *routes*: the names on the way from
the root directory. There are no links, so a route is the only one to its entry.

A path is resolved name by name. Every entry on the way must be a directory, also
before a `.` or a `..`, and so must the last one if a separator follows it. A
relative path starts at the working directory. As systems do, a disk refuses
names of more than 255 bytes, paths of 4096 bytes or more, and the character with
the number 0.

* `Disk.read`, `Disk.isFile` and `Disk.isDirectory` look at what is there.
* `Disk.list` and `Disk.below` give the entries of a directory, and all entries
  below it.
-/

namespace Tangle

/-- The way from the root directory to an entry: the names on it. -/
abbrev Route := List Text

namespace Disk

/-- What is at a place. -/
inductive Entry
  /-- A file with a text. -/
  | file (t : Text)
  /-- A file whose bytes are no text. -/
  | binary (bytes : List UInt8)
  /-- A directory. -/
  | directory
deriving DecidableEq, Inhabited

/-- A file with the given bytes: its text, if they are the UTF-8 form of one. -/
def Entry.ofBytes (bytes : ByteArray) : Entry :=
  match String.fromUTF8? bytes with
  | some s => .file s.toList
  | none => .binary bytes.data.toList

end Disk

/-- The files and directories that there are. -/
structure Disk where
  /-- The entries below the root directory, each with its route. -/
  entries : List (Route × Disk.Entry) := []
  /-- The working directory. -/
  cwd : Route := []
  /-- The number of the running process, which temporary names carry. -/
  process : Nat := 0
  /-- The number of temporary names given out so far. -/
  issued : Nat := 0
deriving DecidableEq, Inhabited

namespace Disk

/-- The entry at a route. The root directory is always there. -/
def get? (d : Disk) (r : Route) : Option Entry :=
  if r = [] then some .directory else d.entries.lookup r

/-- The disk with another entry at a route. -/
def set (d : Disk) (r : Route) (e : Entry) : Disk :=
  { d with entries :=
      if (d.entries.lookup r).isSome then
        d.entries.map fun entry => if entry.1 = r then (r, e) else entry
      else d.entries ++ [(r, e)] }

/-- The disk without the entry at a route. -/
def erase (d : Disk) (r : Route) : Disk :=
  { d with entries := d.entries.filter fun entry => entry.1 != r }

/-- The names of a path, with those that stand for directories. -/
def names (p : Path) : List Text := (Text.split '/' p.text).filter (· != [])

/-- A separator follows the last name. -/
def endsOpen (p : Path) : Bool := p.text.getLast? == some '/'

/-- What is wrong with a path whatever there is on the disk. -/
def check (p : Path) : Except Fault Unit :=
  if Char.ofNat 0 ∈ p.text then .error .badName
  else if p.text = [] then .error .notFound
  else if 4096 ≤ Text.bytes p.text then .error .nameTooLong
  else .ok ()

/-- The path of the working directory. -/
def workingDirectory (d : Disk) : Path := ⟨'/' :: Path.unsplit d.cwd⟩

/-- The place where a path starts. -/
def start (d : Disk) (p : Path) : Route := if p.isAbsolute then [] else d.cwd

/-- Follows names from a place. -/
def walk (d : Disk) (here : Route) : List Text → Except Fault Route
  | [] => .ok here
  | name :: more =>
    match d.get? here with
    | none => .error .notFound
    | some .directory =>
      if name = ['.'] then walk d here more
      else if name = ['.', '.'] then walk d here.dropLast more
      else if 255 < Text.bytes name then .error .nameTooLong
      else walk d (here ++ [name]) more
    | some _ => .error .notDirectory

/-- The place of a path, and what is there. -/
def locate (d : Disk) (p : Path) : Except Fault (Route × Entry) := do
  check p
  let r ← d.walk (d.start p) (names p)
  match d.get? r with
  | none => .error .notFound
  | some .directory => .ok (r, .directory)
  | some e => if endsOpen p then .error .notDirectory else .ok (r, e)

/-- The place of a directory. -/
def locateDirectory (d : Disk) (here : Route) (path : List Text) : Except Fault Route := do
  let r ← d.walk here path
  match d.get? r with
  | none => .error .notFound
  | some .directory => .ok r
  | some _ => .error .notDirectory

/-- The text of a file. -/
def read (d : Disk) (p : Path) : Except Fault Text := do
  match (← d.locate p).2 with
  | .file t => .ok t
  | .binary _ => .error .notText
  | .directory => .error .isDirectory

/-- There is a file at the path. -/
def isFile (d : Disk) (p : Path) : Bool :=
  match d.locate p with
  | .ok (_, e) => e != .directory
  | .error _ => false

/-- There is a directory at the path. -/
def isDirectory (d : Disk) (p : Path) : Bool :=
  match d.locate p with
  | .ok (_, e) => e == .directory
  | .error _ => false

/-- There is something at the path. -/
def has (d : Disk) (p : Path) : Bool :=
  match d.locate p with
  | .ok _ => true
  | .error _ => false

/-- The routes from a directory to all entries below it. -/
def below (d : Disk) (r : Route) : List Route :=
  d.entries.filterMap fun entry =>
    if r.isPrefixOf entry.1 ∧ entry.1 ≠ r then some (entry.1.drop r.length) else none

/-- The names of the entries of a directory. -/
def list (d : Disk) (r : Route) : List Text :=
  (d.below r).filterMap fun
    | [name] => some name
    | _ => none

end Disk

end Tangle
