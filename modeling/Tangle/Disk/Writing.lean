import Tangle.Disk.Basic
import Tangle.Path.Ancestors

/-!
# Writing to a disk

* `makeDirectory` makes one directory, `makeDirectories` also those above it.
* `replaceFile` gives a file a new content, all at once: it writes a temporary
  file next to it, under a name that was not given out before, and moves that to
  its place. If the move fails, the temporary file stays.
-/

namespace Tangle.Disk

/-- Makes a directory, in one that is there. -/
def makeDirectory (d : Disk) (p : Path) : Except Fault Disk := do
  check p
  match (names p).getLast? with
  | none => .error .alreadyExists
  | some name =>
    let r ← d.locateDirectory (d.start p) (names p).dropLast
    if name = ['.'] ∨ name = ['.', '.'] then .error .alreadyExists
    else if 255 < Text.bytes name then .error .nameTooLong
    else if (d.get? (r ++ [name])).isSome then .error .alreadyExists
    else .ok (d.set (r ++ [name]) .directory)

/-- Makes a directory and those above it, as far as they are not there. -/
def makeDirectories (d : Disk) (p : Path) : Disk × Except Fault Unit :=
  if p.text = [] then (d, .ok ())
  else match d.makeDirectory p with
    | .ok d' => (d', .ok ())
    | .error .notFound =>
      match h : p.parent? with
      | none => (d, .error .notFound)
      | some parent =>
        have : parent.text.length < p.text.length := Path.length_of_parent? h
        match makeDirectories d parent with
        | (d', .error fault) => (d', .error fault)
        | (d', .ok ()) =>
          match d'.makeDirectory p with
          | .ok d'' => (d'', .ok ())
          | .error fault => (d', if d'.isDirectory p then .ok () else .error fault)
    | .error fault => (d, if d.isDirectory p then .ok () else .error fault)
termination_by p.text.length

/-- Writes a file, in a directory that is there. -/
def writeFile (d : Disk) (p : Path) (content : Text) : Except Fault (Disk × Route) := do
  check p
  match (names p).getLast? with
  | none => .error .isDirectory
  | some name =>
    let r ← d.locateDirectory (d.start p) (names p).dropLast
    if name = ['.'] ∨ name = ['.', '.'] ∨ endsOpen p then .error .isDirectory
    else if 255 < Text.bytes name then .error .nameTooLong
    else if d.get? (r ++ [name]) = some .directory then .error .isDirectory
    else .ok (d.set (r ++ [name]) (.file content), r ++ [name])

/-- Moves the file at a route to a path. A file that is there is replaced, a
    directory is not. -/
def moveFile (d : Disk) (source : Route) (p : Path) : Except Fault Disk := do
  check p
  match (names p).getLast? with
  | none => .error .busy
  | some name =>
    let r ← d.locateDirectory (d.start p) (names p).dropLast
    if name = ['.'] ∨ name = ['.', '.'] then .error .busy
    else if 255 < Text.bytes name then .error .nameTooLong
    else if endsOpen p then .error .notDirectory
    else
      match d.get? source, d.get? (r ++ [name]) with
      | _, some .directory => .error .isDirectory
      | some e, _ => .ok ((d.erase source).set (r ++ [name]) e)
      | none, _ => .error .notFound

/-- The directory that the entry of a path is in. -/
def home (p : Path) : Path :=
  match p.parent? with
  | some parent => if parent.text = [] then ⟨['.']⟩ else parent
  | none => ⟨['.']⟩

/-- The next temporary name. -/
def temporaryName (d : Disk) : Text :=
  ".sphweb-tmp-".toList ++ Text.decimal d.process ++ '-' :: Text.decimal d.issued

/-- Gives a file a new content, all at once. -/
def replaceFile (d : Disk) (p : Path) (content : Text) : Disk × Except Fault Unit :=
  let named := { d with issued := d.issued + 1 }
  match named.writeFile ((home p).child d.temporaryName) content with
  | .error fault => (named, .error fault)
  | .ok (written, source) =>
    match written.moveFile source p with
    | .error fault => (written, .error fault)
    | .ok moved => (moved, .ok ())

end Tangle.Disk
