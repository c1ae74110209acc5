import Tangle.Command.Run

/-!
# The program

Reads the part of the file system that a command looks at into a disk, runs the
command on it, writes the entries that are new or changed, and prints the output.
All decisions are those of `Command.run`.
-/

namespace Tangle.Main

/-- The entry that the file system has under a name. -/
def entry? (name : String) : IO (Option Disk.Entry) := do
  let path := (← IO.currentDir) / name
  if ← path.isDir then return some .directory
  else if ← path.pathExists then return some (.ofBytes (← IO.FS.readBinFile path))
  else return none

/-- The names in a directory of the file system. -/
def children (name : String) : IO (List String) := do
  let path := (← IO.currentDir) / name
  try return (← path.readDir).toList.map (·.fileName)
  catch _ => return []

/-- The name of a place in the file system. -/
def nameOf (r : Route) : String := String.ofList ('/' :: Path.unsplit r)

/-- Reads the entry at a place. -/
def load (d : Disk) (r : Route) : IO Disk := do
  match ← entry? (nameOf r) with
  | some e => return if r = [] then d else d.set r e
  | none => return d

/-- Reads the entry at a place and those on the way to it. -/
def loadWay (d : Disk) (r : Route) : IO Disk :=
  (List.range (r.length + 1)).foldlM (fun d n => load d (r.take n)) d

/-- Reads all entries below a directory. -/
partial def loadBelow (d : Disk) (r : Route) : IO Disk := do
  (← children (nameOf r)).foldlM (fun d name => do
    let place := r ++ [name.toList]
    let d ← load d place
    if d.get? place = some .directory then loadBelow d place else return d) d

/-- The place that a path names, whether there is something or not. -/
def placeOf (d : Disk) (p : Path) : Route :=
  (Disk.names p).foldl (fun r name =>
    if name = ['.'] then r else if name = ['.', '.'] then r.dropLast else r ++ [name]) (d.start p)

/-- Reads what is at a path, on the way to it and below it. -/
def loadAt (d : Disk) (p : Path) : IO Disk := do
  let place := placeOf d p
  loadBelow (← loadWay d place) place

/-- Reads the configuration files of a directory and of those above it. -/
def loadConfigs (d : Disk) (p : Path) : IO Disk :=
  let directories := p.ancestors
  let files := directories.flatMap fun dir => Config.fileNames.map dir.child
  files.foldlM (fun d file => loadWay d (placeOf d file)) d

/-- Reads what a command looks at. -/
def snapshot (i : Invocation) (d : Disk) : IO Disk := do
  let base := Command.base i d
  let inputDir := base.join (i.input.getD ⟨[]⟩)
  let d ← loadWay d d.cwd
  let d ← loadConfigs d inputDir
  let d ← match i.config with
    | some path => loadWay d (placeOf d (base.join path))
    | none => pure d
  let d ← loadAt d inputDir
  match (Command.workspace i d).outcome, i.command with
  | .ok _, .tangle (some output) .. => loadAt d (base.join output)
  | .ok w, .tangle .. => loadAt d w.outputDir
  | _, _ => return d

/-- Writes the entries that are not as they were. -/
def save (before after : Disk) : IO Unit :=
  after.entries.forM fun (r, e) => do
    if before.get? r ≠ some e then
      match e with
      | .directory => IO.FS.createDirAll (nameOf r)
      | .file t => IO.FS.writeFile (nameOf r) (String.ofList t)
      | .binary bytes => IO.FS.writeBinFile (nameOf r) ⟨bytes.toArray⟩

end Tangle.Main

open Tangle in
/-- Runs the program. -/
def main (arguments : List String) : IO UInt32 := do
  let here : Path := .ofString (toString (← IO.currentDir))
  let empty : Disk := { cwd := Disk.names here }
  let arguments := arguments.map String.toList
  let disk ← match Command.parse arguments with
    | .ok i => Main.snapshot i empty
    | .error _ => pure empty
  let finish := Command.run arguments ((← IO.getEnv "RUST_LOG").map String.toList) disk
  Main.save disk finish.disk
  IO.print (String.ofList finish.output)
  IO.eprint (String.ofList finish.errors)
  return finish.code.toUInt32
