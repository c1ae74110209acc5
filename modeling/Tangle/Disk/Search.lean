import Tangle.Disk.Basic

/-!
# Searching a disk

The files that a pattern describes, looked for component by component:

* a component without wildcards is followed, whether it is a name, `.` or `..`;
* one with wildcards describes entries of the directory reached so far, and also
  `.` and `..` if it starts with a dot;
* `**` leads to every entry below that directory.

The base directory of a search is part of the pattern, so wildcards in its name
are wildcards. Files below it are given relative to it. The same file may be
found in more than one way, and is then listed as often.
-/

namespace Tangle.Disk

open Glob (Pattern Token)

/-- The path of an entry of a directory; the working directory itself is left
    out. -/
def entryPath (p : Path) (name : Text) : Path :=
  if p.alike ⟨['.']⟩ then ⟨name⟩ else p.child name

/-- The pattern stands for any sequence of components. -/
def isRecursive (p : Pattern) : Bool := p == [.components]

/-- The paths from `p` on that the patterns of components describe. -/
def search (d : Disk) : List Pattern → Path → List Path
  | [], _ => []
  | pattern :: more, p =>
    match pattern.literal? with
    | some name =>
      let next := entryPath p name
      let special := name = ['.'] ∨ name = ['.', '.']
      if (special ∧ d.isDirectory p) ∨ (¬special ∧ d.has next) then
        if more = [] then [next] else search d more next
      else []
    | none =>
      match d.locate p with
      | .ok (r, .directory) =>
        if isRecursive pattern then
          (d.below r).flatMap fun route =>
            let q := route.foldl entryPath p
            searchBelow d more q (route.getLast?.getD [])
        else
          let children := (d.list r).flatMap fun name =>
            if pattern.accepts name then
              if more = [] then [entryPath p name] else search d more (entryPath p name)
            else []
          let specials := if pattern.head? = some (.char '.') then [['.'], ['.', '.']] else []
          children ++ (specials.filter pattern.accepts).flatMap fun name =>
            if more = [] then [p.child name] else search d more (p.child name)
      | _ => []
where
  /-- The paths that the patterns describe, of which the first one that is not
      `**` describes the last name of `p`. -/
  searchBelow (d : Disk) : List Pattern → Path → Text → List Path
    | [], p, _ => if d.isDirectory p then [p] else []
    | pattern :: more, p, name =>
      if isRecursive pattern then searchBelow d more p name
      else if pattern.accepts name then if more = [] then [p] else search d more p
      else []

/-- The texts of the components of a pattern, after its root. -/
def componentTexts (t : Text) : List Text :=
  let inside := if t.head? = some '/' then t.drop 1 else t
  let pieces := Text.split '/' inside
  if inside = [] then [[]]
  else if pieces.getLast? = some [] then pieces.dropLast
  else pieces

/-- The paths that a pattern describes. -/
def glob (d : Disk) (t : Text) : Except Glob.Fault (List Path) := do
  let _ ← Glob.parse t
  let patterns ← (componentTexts t).mapM Glob.parse
  let found := d.search patterns (if t.head? = some '/' then ⟨['/']⟩ else ⟨['.']⟩)
  return if t.getLast? = some '/' then found.filter d.isDirectory else found

/-- The files that a pattern describes, from a base directory. -/
def findFiles (d : Disk) (base : Path) (pattern : Text) : Except Fault (List Path) :=
  match d.glob (base.join ⟨pattern⟩).text with
  | .error fault => .error (.badPattern fault)
  | .ok found =>
    let files := (found.filter d.isFile).map fun p => (p.relativeTo? base).getD p
    .ok (files.mergeSort Path.le)

end Tangle.Disk
