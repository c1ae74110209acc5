import Tangle.Config.Files
import Tangle.Hook
import Tangle.Library

/-!
# Workspaces

A workspace is what a run works with: its configuration, its hooks, the library
of its documents, and the directories for input and output.

* `Workspace.documents` are the paths that the patterns of the configuration
  describe, in order and each once; `Workspace.select` picks some of them.
* `Workspace.target` is the output file of a file chunk. The name of the chunk
  must be a path that stays inside the output directory: not empty, not
  absolute, and without `..`.
-/

namespace Tangle

/-- What a run works with. -/
structure Workspace where
  /-- The settings. -/
  config : Config
  /-- What is done to the text of a file chunk. -/
  hooks : List Hook := Hook.defaults
  /-- The documents. -/
  library : Library
  /-- The directory that the documents are found in. -/
  inputDir : Path
  /-- The directory that the output goes to. -/
  outputDir : Path

namespace Workspace

/-- The workspace of a directory: the output goes to the directory of the
    configuration, taken from the input directory, or to that directory. -/
def new (config : Config) (library : Library) (inputDir : Path) : Workspace where
  config
  library
  inputDir
  outputDir := match config.outputDir with
    | some dir => inputDir.join dir
    | none => inputDir

/-- The workspace of a directory of a disk, with the configuration found
    there. -/
def ofDirectory (d : Disk) (inputDir : Path) : Report Workspace := do
  return new (← Config.readFor d inputDir) (d.library inputDir) inputDir

/-- What a pattern of the configuration describes. -/
def find (w : Workspace) (pattern : Text) : Except Error (List Path) :=
  match Glob.parse pattern with
  | .error fault => .error (.badPattern fault)
  | .ok _ =>
    match w.library.find pattern with
    | .error fault => .error (.disk fault)
    | .ok paths => .ok paths

/-- The documents. -/
def documents (w : Workspace) : Except Error (List Path) := do
  return Path.sorted (← w.config.sourcePatterns.mapM w.find).flatten

/-- The document that a path names, which may start with the input
    directory. -/
def pick (w : Workspace) (documents : List Path) (path : Path) : Except Error Path :=
  match documents.find? (·.alike ((path.relativeTo? w.inputDir).getD path)) with
  | some found => .ok found
  | none => .error (.notDocument path)

/-- The documents that the paths name. -/
def select (w : Workspace) (paths : List Path) : Except Error (List Path) := do
  let documents ← w.documents
  return Path.sorted (← paths.mapM (w.pick documents))

/-- The component stays inside a directory. -/
def staysInside : Path.Component → Bool
  | .normal _ | .current => true
  | .root | .parent => false

/-- The output file of the file chunk of that name. -/
def target (w : Workspace) (name : Name) : Except Error Path :=
  let path : Path := ⟨name.text⟩
  if name.text ≠ [] ∧ path.components.all staysInside then .ok (w.outputDir.join path)
  else .error (.badTarget name)

end Workspace

end Tangle
