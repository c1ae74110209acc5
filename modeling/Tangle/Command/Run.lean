import Tangle.Command.Arguments
import Tangle.Config.Writing
import Tangle.Event.Filter
import Tangle.References.Json
import Tangle.Session

/-!
# Running a command

A run looks at a disk and leaves a disk. What it prints and the events it notes
go to the same output, in order; a filter says which events are shown.

Paths of the command line are taken from the base directory: the one that was
given, as it was given, or else the working directory.

The exit code is 0 for success, 1 for an error, whose wording goes to the error
output, and 2 for arguments that are mistaken.
-/

namespace Tangle

namespace Command

/-- Something that a run shows. -/
inductive Shown
  /-- An event, if the filter lets it pass. -/
  | event (e : Event)
  /-- A line of text or more. -/
  | print (t : Text)
deriving DecidableEq

/-- What a command shows, what it comes to, and the disk that it leaves. -/
structure Effect where
  /-- What is shown, in order. -/
  shown : List Shown
  /-- Success, or the error. -/
  outcome : Except Error Unit
  /-- The disk afterwards. -/
  disk : Disk

/-- The base directory. -/
def base (i : Invocation) (d : Disk) : Path := i.directory.getD d.workingDirectory

/-- The workspace of a command. -/
def workspace (i : Invocation) (d : Disk) : Report Workspace := do
  let inputDir := match i.input with
    | some dir => (base i d).join dir
    | none => base i d
  let config ← match i.config with
    | some path => Config.readAt d ((base i d).join path)
    | none => Config.readFor d inputDir
  return .new config (d.library inputDir) inputDir

/-- What follows a report, if it succeeds. -/
def follow {α : Type} (d : Disk) (r : Report α) (next : α → Effect) : Effect :=
  match r.outcome with
  | .error e => ⟨r.log.map .event, .error e, d⟩
  | .ok a =>
    let effect := next a
    { effect with shown := r.log.map .event ++ effect.shown }

/-- Prints a text. -/
def print (d : Disk) (t : Text) : Effect := ⟨[.print t], .ok (), d⟩

/-- The actions of a plan in words. -/
def preview (p : Plan) : Text :=
  s!"Would perform {p.actions.length} actions:\n".toList ++
    Text.unlines (p.actions.map fun a => ' ' :: ' ' :: a.describe)

/-- The event that a tangling was performed. -/
def summary (t : Tangling) : Event :=
  .tangled t.files t.plan.actions.length t.plan.unchanged.length

/-- Performs a tangling, or says what it would do. -/
def carryOut (d : Disk) (dryRun : Bool) (t : Tangling) : Effect :=
  let closing := if dryRun then [] else [Shown.event (summary t)]
  if t.plan.actions = [] then ⟨.print "No files to tangle.\n".toList :: closing, .ok (), d⟩
  else if dryRun then print d (preview t.plan)
  else
    let (d', r) := t.plan.perform d
    follow d' r fun () => ⟨closing, .ok (), d'⟩

/-- The tangling of the chosen documents, or of all. -/
def planTangling (w : Workspace) (d : Disk) (naked : Bool) (files : List Path) :
    Report Tangling := do
  let w := if naked then { w with config := { w.config with annotation := .naked } } else w
  let documents ← Report.ofExcept (if files = [] then w.documents else w.select files)
  Report.note (.tangling documents.length)
  w.tangle d documents

/-- The event that a chunk is never referenced. -/
def neverReferenced (c : Chunk) : List Event :=
  (c.occurrences.head?.map fun o => Event.neverReferenced o.location c.name).toList

/-- The reference trees of all documents. -/
def planTrees (w : Workspace) : Report (List Tree) := do
  let s ← Session.load w (← Report.ofExcept w.documents)
  let (linked, r) := s.trees
  let trees ← r
  let _ ← (⟨linked.store.unreferenced.flatMap neverReferenced, .ok ()⟩ : Report Unit)
  return trees

/-- Runs a command. -/
def perform (i : Invocation) (d : Disk) : Effect :=
  follow d (workspace i d) fun w =>
    match i.command with
    | .tangle output dryRun naked files =>
      let w := match output with
        | some dir => { w with outputDir := (base i d).join dir }
        | none => w
      follow d (planTangling w d naked (files.map (base i d).join)) (carryOut d dryRun)
    | .tree json =>
      follow d (planTrees w) fun trees =>
        print d (if json then Tree.json trees ++ ['\n'] else trees.flatMap Tree.render)
    | .config => print d w.config.render

/-- What a run of the program leaves behind. -/
structure Finish where
  /-- The exit code. -/
  code : Nat
  /-- The output. -/
  output : Text := []
  /-- The error output. -/
  errors : Text := []
  /-- The disk. -/
  disk : Disk

/-- What is shown, as text. -/
def transcript (f : Event.Filter) (shown : List Shown) : Text :=
  shown.flatMap fun
    | .event e => if f.shows e then e.line else []
    | .print t => t

/-- The name and the version of the program. -/
def version : String := "sphweb 0.1.0\n"

/-- How the program is used. -/
def usage : String :=
  "Usage: sphweb [-c CONFIG] [-C DIRECTORY] [-v] COMMAND\n\n" ++
  "Commands:\n" ++
  "  tangle [--in DIR] [--out DIR] [-n] [--naked] [FILE]...\n" ++
  "  tree [--in DIR] [--json]\n" ++
  "  config\n"

/-- Runs the program, given its arguments and the log filter asked for. -/
def run (arguments : List Text) (logSetting : Option Text) (d : Disk) : Finish :=
  match parse arguments with
  | .error .help => { code := 0, output := usage.toList, disk := d }
  | .error .version => { code := 0, output := version.toList, disk := d }
  | .error .misuse => { code := 2, errors := usage.toList, disk := d }
  | .ok i =>
    let filter := if i.verbose then .verbose else Event.Filter.ofSetting logSetting
    let effect := perform i d
    let output := transcript filter effect.shown
    match effect.outcome with
    | .ok () => { code := 0, output, disk := effect.disk }
    | .error e =>
      { code := 1, output, errors := s!"Error: {e.message}\n".toList, disk := effect.disk }

end Command

end Tangle
