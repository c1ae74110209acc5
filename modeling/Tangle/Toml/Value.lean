import Tangle.Text.Blank

/-!
# Values and tables of TOML

A TOML document is a table: keys with values. A value may itself be a table, and
how a table came about (its *origin*) decides what may be added to it later:

* one written in braces is complete;
* one opened by a header takes what stands below the header, and cannot be
  opened again;
* one that a longer header passes through may still get a header of its own;
* one that a dotted key passes through takes further dotted keys.

`put` adds a value under a dotted key, and `within` goes to the table in which a
header opens another one. Both refuse what would define a key twice.
-/

namespace Tangle.Toml

/-- How a table came about. -/
inductive Origin
  /-- Written in braces. -/
  | inline
  /-- Opened by a header. -/
  | header
  /-- Passed through by a header. -/
  | implicit
  /-- Passed through by a dotted key. -/
  | dotted
deriving DecidableEq, Inhabited

/-- A value. -/
inductive Value
  /-- A text. -/
  | string (t : Text)
  /-- A whole number. -/
  | integer (n : Int)
  /-- A number with a fraction or an exponent, as it is written. -/
  | float (t : Text)
  /-- A truth value. -/
  | boolean (b : Bool)
  /-- A date, a time of day, or both, as it is written. -/
  | moment (t : Text)
  /-- A list of values. -/
  | array (items : List Value)
  /-- A table. -/
  | table (origin : Origin) (entries : List (Text × Value))
  /-- A list of tables, each opened by a header. -/
  | tables (elements : List (List (Text × Value)))
deriving Inhabited

/-- The content of a table: keys with values, in the order of their
    definition. -/
abbrev Entries := List (Text × Value)

/-- The value of a key. -/
def find? (key : Text) (entries : Entries) : Option Value := entries.lookup key

/-- The entries with another value of a key. -/
def replace (key : Text) (v : Value) (entries : Entries) : Entries :=
  entries.map fun e => if e.1 = key then (key, v) else e

/-- Adds a value under a key, in the table to which the dotted path leads. -/
def put (key : Text) (v : Value) : List Text → Entries → Option Entries
  | [], entries => if (find? key entries).isSome then none else some (entries ++ [(key, v)])
  | step :: path, entries =>
    match find? step entries with
    | none => (put key v path []).map fun inside => entries ++ [(step, .table .dotted inside)]
    | some (.table origin inside) =>
      if origin = .dotted ∨ (origin = .implicit ∧ path ≠ []) then
        (put key v path inside).map fun inside => replace step (.table origin inside) entries
      else none
    | some (.tables elements) =>
      match elements.getLast? with
      | some last =>
        if path = [] then none
        else (put key v path last).map fun last =>
          replace step (.tables (elements.dropLast ++ [last])) entries
      | none => none
    | some _ => none

/-- Changes the table to which the path of a header leads. Tables on the way that
    are not there yet come about. -/
def within (f : Entries → Option Entries) : List Text → Entries → Option Entries
  | [], entries => f entries
  | step :: path, entries =>
    match find? step entries with
    | none => (within f path []).map fun inside => entries ++ [(step, .table .implicit inside)]
    | some (.table origin inside) =>
      if origin = .inline then none
      else (within f path inside).map fun inside => replace step (.table origin inside) entries
    | some (.tables elements) =>
      match elements.getLast? with
      | some last => (within f path last).map fun last =>
          replace step (.tables (elements.dropLast ++ [last])) entries
      | none => none
    | some _ => none

/-- Adds values under dotted keys, one after the other. -/
def putAll : List (List Text × Value) → Entries → Option Entries
  | [], entries => some entries
  | (path, v) :: more, entries =>
    match path.getLast? with
    | some key => (put key v path.dropLast entries).bind (putAll more)
    | none => none

end Tangle.Toml
