import Tangle.Disk.Writing
import Tangle.Report

/-!
# Plans

A plan lists the files to be written before any of them is. A file that is not
there is *created*, together with the directories above it; one that has another
content is *overwritten*; and one that has its content already is left
*unchanged*. A plan is performed from its first action on, and stops at the
first one that fails.
-/

namespace Tangle

/-- How a file is written. -/
inductive Manner
  /-- With the directories above it. -/
  | create
  /-- In a directory that is there. -/
  | overwrite
deriving DecidableEq, Inhabited

/-- The word for it. -/
def Manner.word : Manner → String
  | create => "create"
  | overwrite => "write"

/-- A file to be written. -/
structure Action where
  /-- How the file is written. -/
  manner : Manner
  /-- The path of the file. -/
  path : Path
  /-- The content of the file. -/
  content : Text
deriving DecidableEq, Inhabited

namespace Action

/-- The action in words. -/
def describe (a : Action) : Text := a.manner.word.toList ++ ' ' :: a.path.text

/-- Performs an action. -/
def perform (a : Action) (d : Disk) : Disk × Except Disk.Fault Unit :=
  match a.manner with
  | .overwrite => d.replaceFile a.path a.content
  | .create =>
    match a.path.parent? with
    | none => d.replaceFile a.path a.content
    | some parent =>
      match d.makeDirectories parent with
      | (d', .error fault) => (d', .error fault)
      | (d', .ok ()) => d'.replaceFile a.path a.content

end Action

/-- Files to be written, and files that need not be. -/
structure Plan where
  /-- The files to be written, in order. -/
  actions : List Action := []
  /-- The files that have their content already. -/
  unchanged : List Path := []
deriving DecidableEq, Inhabited

namespace Plan

/-- The plan with one more action. -/
def add (p : Plan) (a : Action) : Plan := { p with actions := p.actions ++ [a] }

/-- The plan with one more file, which is to have that content. -/
def write (p : Plan) (d : Disk) (path : Path) (content : Text) : Report Plan :=
  match d.read path with
  | .ok existing =>
    if existing = content then do
      Report.note (.upToDate path)
      return { p with unchanged := p.unchanged ++ [path] }
    else return p.add ⟨.overwrite, path, content⟩
  | .error .notFound => return p.add ⟨.create, path, content⟩
  | .error fault => Report.fail (.disk fault)

/-- Performs actions, from the first on. -/
def performAll : List Action → Disk → Disk × Report Unit
  | [], d => (d, return ())
  | a :: more, d =>
    match a.perform d with
    | (d', .error fault) => (d', ⟨[.performing a.describe], .error (.disk fault)⟩)
    | (d', .ok ()) =>
      let (d'', r) := performAll more d'
      (d'', ⟨.performing a.describe :: r.log, r.outcome⟩)

/-- Performs a plan. -/
def perform (p : Plan) (d : Disk) : Disk × Report Unit := performAll p.actions d

end Plan

end Tangle
