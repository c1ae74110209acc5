import Tangle.Text.Digit
import Tangle.Text.Letter

/-!
# Regular expressions

Which texts are regular expressions, i.e., can be asked of a message:

* a character stands for itself, but for those with a meaning;
* `.`, `^`, `$`, escapes such as `\d` and sets such as `[a-z]` are items; the
  signs `*`, `+` and `?` repeat the item before them, which must be there;
* `|` separates alternatives; `(…)` groups, with a name as in `(?<name>…)`, or
  with flags as in `(?i:…)`; `(?i)` sets flags for the rest of its group.

There are no references to groups, no looking ahead or behind, and no boundaries
of words. An expression stands between braces, so none has braces of its own,
other than escaped ones and those in sets: repetitions are not counted.
-/

namespace Tangle.Text

namespace Expression

/-- What an escape stands for. -/
inductive Escape
  /-- One character. -/
  | char (c : Char)
  /-- One character of a set. -/
  | set
  /-- A place between characters. -/
  | place
deriving DecidableEq, Inhabited

/-- The escape of a character, if one alone follows the backslash. Of the
    characters of ASCII, all but letters, digits and angles stand for
    themselves. -/
def shortEscape? : Char → Option Escape
  | 'd' | 'D' | 's' | 'S' | 'w' | 'W' => some .set
  | 'A' | 'z' => some .place
  | 'a' => some (.char '\x07')
  | 'f' => some (.char '\x0c')
  | 't' => some (.char '\t')
  | 'n' => some (.char '\n')
  | 'r' => some (.char '\r')
  | 'v' => some (.char '\x0b')
  | c =>
    if c.toNat < 0x80 && !c.isAlphanum && c != '<' && c != '>' then some (.char c) else none

/-- The escape of a character whose number is given by so many digits. -/
def numbered? (digits : Nat) (t : Text) : Option (Escape × Nat) :=
  if digits ≤ t.length then (unicode? (t.take digits)).map fun c => (.char c, digits + 1)
  else none

/-- The escape at the start of what follows a backslash, and its length. A
    category of characters has one letter. -/
def escape? : Text → Option (Escape × Nat)
  | 'x' :: t => numbered? 2 t
  | 'u' :: t => numbered? 4 t
  | 'U' :: t => numbered? 8 t
  | 'p' :: c :: _ | 'P' :: c :: _ =>
    if c.toLower ∈ "clmnpsz".toList then some (.set, 2) else none
  | c :: _ => (shortEscape? c).map fun e => (e, 1)
  | [] => none

/-- What a group opens with. -/
inductive Opening
  /-- A group, which may have a name. -/
  | group (name : Option Text)
  /-- Flags for what follows. -/
  | flags
deriving DecidableEq, Inhabited

/-- The text names a group. -/
def isName : Text → Bool
  | [] => false
  | c :: t => (c == '_' || isLetter c) && t.all fun c => c ∈ "_.[]".toList || isWordChar c

/-- The text lists flags, each at most once, of which those after a dash are
    unset. -/
def areFlags (t : Text) : Bool :=
  t.all (· ∈ "imsUuRx-".toList) && decide t.Nodup && t.getLast? != some '-'

/-- The group named by the text up to an angle, and the length of the name with
    it. -/
def named? (t : Text) : Option (Opening × Nat) :=
  let name := t.takeWhile (· != '>')
  if isName name && name.length < t.length then some (.group (some name), name.length + 1)
  else none

/-- What stands after an opening parenthesis, and its length. -/
def opening? : Text → Option (Opening × Nat)
  | '?' :: 'P' :: '<' :: t => (named? t).map fun (o, n) => (o, n + 3)
  | '?' :: '<' :: t => (named? t).map fun (o, n) => (o, n + 2)
  | '?' :: t =>
    let list := t.takeWhile fun c => c != ':' && c != ')'
    match areFlags list, (t.drop list.length).head? with
    | true, some ':' => some (.group none, list.length + 2)
    | true, some ')' => if list.isEmpty then none else some (.flags, list.length + 2)
    | _, _ => none
  | _ => some (.group none, 0)

/-- The length of what opens a set, after its bracket: a `^` says that the set is
    of the other characters, dashes are members, and a bracket is one if it comes
    first. -/
def setOpening (t : Text) : Nat :=
  let negation := (t.takeWhile (· == '^')).take 1
  let rest := t.drop negation.length
  let dashes := rest.takeWhile (· == '-')
  negation.length + dashes.length + if dashes.isEmpty && rest.head? == some ']' then 1 else 0

/-- The member of a set that starts with a character, and how much of what follows
    is part of it: one character, or those of another set. -/
def member? (c : Char) (t : Text) : Option (Option Char × Nat) :=
  if c = '\\' then
    match escape? t with
    | some (.char c, n) => some (some c, n)
    | some (.set, n) => some (none, n)
    | _ => none
  else some (some c, 0)

mutual

/-- The text ends an expression in which so many groups are open and the groups
    so far have these names; `item` says whether there is one to repeat. -/
def items (groups : Nat) (names : List Text) (item : Bool) (t : Text) : Bool :=
  match t with
  | [] => groups == 0
  | '|' :: t => items groups names false t
  | ')' :: t => groups != 0 && items (groups - 1) names true t
  | '*' :: t | '+' :: t | '?' :: t => item && items groups names true t
  | '{' :: _ => false
  | '(' :: t =>
    match opening? t with
    | some (.group none, n) => items (groups + 1) names false (t.drop n)
    | some (.group (some name), n) =>
      !names.contains name && items (groups + 1) (name :: names) false (t.drop n)
    | some (.flags, n) => items groups names false (t.drop n)
    | none => false
  | '[' :: t => members groups names 0 (t.drop (setOpening t))
  | '\\' :: t =>
    match escape? t with
    | some (_, n) => items groups names true (t.drop n)
    | none => false
  | _ :: t => items groups names true t
termination_by t.length
decreasing_by all_goals simp only [List.length_drop, List.length_cons]; omega

/-- The text ends an expression in which a set is open, so many sets deep. -/
def members (groups : Nat) (names : List Text) (depth : Nat) (t : Text) : Bool :=
  match t with
  | [] => false
  | ']' :: t =>
    if depth = 0 then items groups names true t else members groups names (depth - 1) t
  | '[' :: t => members groups names (depth + 1) (t.drop (setOpening t))
  | '&' :: '&' :: t | '-' :: '-' :: t | '~' :: '~' :: t => members groups names depth t
  | c :: t =>
    match member? c t with
    | none => false
    | some (first, n) =>
      match h : t.drop n with
      | '-' :: next :: rest =>
        have : rest.length + 2 ≤ t.length := by
          have := congrArg List.length h
          simp only [List.length_drop, List.length_cons] at this
          omega
        if next = ']' ∨ next = '-' then members groups names depth ('-' :: next :: rest)
        else
          match member? next rest with
          | some (some last, m) =>
            first.any (· ≤ last) && members groups names depth (rest.drop m)
          | _ => false
      | rest =>
        have : rest.length ≤ t.length := by
          have := congrArg List.length h
          simp only [List.length_drop] at this
          omega
        members groups names depth rest
termination_by t.length
decreasing_by all_goals simp only [List.length_drop, List.length_cons]; omega

end

end Expression

/-- The text is a regular expression. -/
def isExpression (t : Text) : Bool := Expression.items 0 [] false t

end Tangle.Text
