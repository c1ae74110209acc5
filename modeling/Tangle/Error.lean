import Tangle.Chunk.Key
import Tangle.Disk.Fault
import Tangle.Location

/-!
# Errors

The reasons for which an operation of the library fails, and their wording. An
error says what is wrong and with which chunk, line or path; the text shown to a
user is made from that by `Error.message` alone.
-/

namespace Tangle

/-- Why an operation fails. -/
inductive Error
  /-- A file could not be read, found or written. -/
  | disk (fault : Disk.Fault)
  /-- The configuration file could not be read. -/
  | unreadableConfig (path : Path) (fault : Disk.Fault)
  /-- The path asked for is not among the documents. -/
  | notDocument (path : Path)
  /-- The text of the configuration is malformed, or not a configuration. -/
  | malformedConfig
  /-- A pattern for documents is faulty. -/
  | badPattern (fault : Glob.Fault)
  /-- The block at that location defines a chunk that is defined already. -/
  | alreadyDefined (kind : Kind) (name : Name) (location : Location)
  /-- The block at that location extends a chunk that is not defined. -/
  | notDefined (kind : Kind) (name : Name) (location : Location)
  /-- A shebang stands in the block of a fragment. -/
  | misplacedShebang (name : Name) (location : Location)
  /-- A chunk refers to one that is not defined. -/
  | unresolved (name parent : Name)
  /-- The chunks refer to each other in a circle. -/
  | cycle (names : List Name)
  /-- The name of a file chunk is no path inside the output directory. -/
  | badTarget (name : Name)
  /-- There is no chunk of that key. -/
  | unregistered (key : Key)
  /-- The chunk has no occurrence. -/
  | noOccurrence (name : Name)
  /-- A hook gave up. -/
  | hook (reason : Text)
deriving DecidableEq

/-- The wording of an error. -/
def Error.message : Error → String
  | disk fault => s!"I/O error: {fault.message}"
  | unreadableConfig path fault => s!"Configuration error: cannot read {path}: {fault.message}"
  | notDocument path =>
    s!"Configuration error: {path} is not a source file (does not match source_patterns)"
  | malformedConfig => "TOML parse error"
  | badPattern fault => s!"Glob pattern error: {fault.message}"
  | alreadyDefined kind name location =>
    s!"{kind} chunk `{name}` already defined (operator `=`) at {location}"
  | notDefined kind name location =>
    s!"{kind} chunk `{name}` extended before definition (operator `=+`) at {location}"
  | misplacedShebang name location =>
    s!"`@shebang` used in fragment chunk `{name}` at {location}; only file chunks take a shebang"
  | unresolved name parent => s!"Chunk `{name}` referenced from `{parent}` is not defined"
  | cycle names =>
    let walk := " -> ".intercalate (names.map toString)
    s!"Cycle detected in chunk references: {walk}"
  | badTarget name =>
    s!"Invalid output target: `{name}` must be a relative path inside the output directory"
  | unregistered key => s!"chunk {key} is not registered"
  | noOccurrence name => s!"chunk `{name}` has no occurrence"
  | hook reason => String.ofList reason

end Tangle
