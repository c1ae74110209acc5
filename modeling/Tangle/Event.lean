import Tangle.Chunk.Key
import Tangle.Location

/-!
# Events

What an operation notes on its way: what it did, and what a user should look at.
An event has a *level*, by which it is shown or not, and a *topic*, the name by
which a log filter can ask for the events of one part of the program.
-/

namespace Tangle

/-- How much an event matters, from least to most. -/
inductive Level
  | debug
  | info
  | warn
deriving DecidableEq, Ord, Inhabited

/-- The name of a level in a log. -/
def Level.name : Level → String
  | debug => "DEBUG"
  | info => "INFO"
  | warn => "WARN"

/-- Something noted by an operation. -/
inductive Event
  /-- A block defined a chunk. -/
  | defined (location : Location) (kind : Kind) (name : Name)
  /-- A block extended a chunk. -/
  | extended (location : Location) (kind : Kind) (name : Name)
  /-- A block gave a file chunk another shebang than it had. -/
  | shebangChanged (location : Location) (name : Name) (before after : Text)
  /-- A block has no closing line. -/
  | neverClosed (location : Location) (kind : Kind) (name : Name)
  /-- A reference stands for nothing, as its chunk is not defined. -/
  | expandedToNothing (location : Location) (name : Name)
  /-- So many references stand for nothing. -/
  | unresolvedTotal (count : Nat)
  /-- So many references were linked. -/
  | linked (count : Nat)
  /-- No chunk refers to the fragment that starts there. -/
  | neverReferenced (location : Location) (name : Name)
  /-- So many documents were read, with so many chunks. -/
  | parsed (documents chunks : Nat)
  /-- The configuration was read from that file. -/
  | configured (path : Path)
  /-- The file has its content already. -/
  | upToDate (path : Path)
  /-- A planned action is about to be performed. -/
  | performing (description : Text)
  /-- So many documents are about to be tangled. -/
  | tangling (documents : Nat)
  /-- So many files were tangled. -/
  | tangled (files written unchanged : Nat)
deriving DecidableEq

namespace Event

/-- How much an event matters. -/
def level : Event → Level
  | defined .. | extended .. | linked .. | parsed .. | configured .. | upToDate ..
  | performing .. => .debug
  | tangling .. | tangled .. => .info
  | shebangChanged .. | neverClosed .. | expandedToNothing .. | unresolvedTotal ..
  | neverReferenced .. => .warn

/-- The part of the program that a log filter knows an event by. -/
def topic : Event → String
  | defined .. | extended .. | shebangChanged .. | neverClosed .. => "sphweb::readers::sphweb"
  | expandedToNothing .. => "sphweb::model::expand"
  | linked .. => "sphweb::model::tree"
  | unresolvedTotal .. | parsed .. => "sphweb::interface::session"
  | neverReferenced .. => "sphweb::commands::tree"
  | configured .. => "sphweb::config"
  | upToDate .. | performing .. => "sphweb::io::transaction"
  | tangling .. | tangled .. => "sphweb::commands::tangle"

/-- The wording of an event. -/
def message : Event → String
  | defined location kind name => s!"{location}: defined {kind} chunk `{name}`"
  | extended location kind name => s!"{location}: extended {kind} chunk `{name}`"
  | shebangChanged location name before after =>
    s!"{location}: shebang of `{name}` changed from `{String.ofList before}` to `{String.ofList after}`"
  | neverClosed location kind name =>
    s!"{location}: {kind} chunk `{name}` is never closed and was discarded"
  | expandedToNothing location name =>
    s!"{location}: chunk `{name}` is not defined, expanding to nothing"
  | unresolvedTotal count => s!"{count} unresolved chunk references were expanded to nothing"
  | linked count => s!"Linked {count} chunk references"
  | neverReferenced location name => s!"{location}: fragment `{name}` is never referenced"
  | parsed documents chunks => s!"Parsed {documents} documents into {chunks} chunks"
  | configured path => s!"Loaded configuration from {path}"
  | upToDate path => s!"{path} is up to date"
  | performing description => String.ofList description
  | tangling documents => s!"Tangling {documents} documents..."
  | tangled files written unchanged =>
    s!"Tangled {files} files ({written} written, {unchanged} unchanged)"

end Event

end Tangle
