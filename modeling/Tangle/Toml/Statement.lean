import Tangle.Toml.Literal

/-!
# Documents of TOML

A document is a list of *statements*, each on a line of its own: a pair of a
dotted key and a value, a header that opens a table, or one that opens a further
table of a list. Reading a document is reading its statements (`statements`) and
carrying them out (`assemble`): the pairs before the first header belong to the
document itself, and those below a header to the table that it opens.

Arrays and tables in braces nest less than 80 deep, and a dotted key has fewer
than 80 parts.
-/

namespace Tangle.Toml

/-- Arrays and tables in braces nest so deep, and dotted keys are so long, at
    most. -/
def maxDepth : Nat := 79

/-- A text without its leading blanks and tabs. -/
def skipBlanks (t : Text) : Text := t.dropWhile fun c => c == ' ' || c == '\t'

/-- A text without leading blanks, line ends and comments, given whether it
    starts inside a comment. -/
def skipLines (inComment : Bool) : Text → Option Text
  | [] => some []
  | '\n' :: rest => skipLines false rest
  | '\r' :: '\n' :: rest => skipLines false rest
  | '#' :: rest => skipLines true rest
  | c :: rest =>
    if inComment then if isContentChar c then skipLines true rest else none
    else if c = ' ' ∨ c = '\t' then skipLines false rest
    else some (c :: rest)

/-- What follows the end of a line, before which only blanks and a comment may
    stand. -/
def endLine (t : Text) : Option Text :=
  let t := skipBlanks t
  let t := if t.head? = some '#' then t.dropWhile isContentChar else t
  match t with
  | [] => some []
  | '\n' :: rest => some rest
  | '\r' :: '\n' :: rest => some rest
  | _ => none

/-- The characters of keys without quotes. -/
def isKeyChar (c : Char) : Bool := c.isAlphanum || c == '_' || c == '-'

/-- A key without dots, and what follows. -/
def simpleKey? : Text → Option (Text × Text)
  | '"' :: rest => basic rest
  | '\x27' :: rest => literal rest
  | t =>
    let key := t.takeWhile isKeyChar
    if key = [] then none else some (key, t.dropWhile isKeyChar)

/-- A dotted key of at most so many parts, and what follows. Blanks around the
    parts do not count. -/
def keys : Nat → Text → Option (List Text × Text)
  | 0, _ => none
  | n + 1, t =>
    match simpleKey? (skipBlanks t) with
    | none => none
    | some (key, rest) =>
      match skipBlanks rest with
      | '.' :: rest => (keys n rest).map fun (path, rest) => (key :: path, rest)
      | rest => some ([key], rest)

/-- A dotted key, an equals sign and a value, and what follows. -/
def pair? (value : Text → Option (Value × Text)) (t : Text) :
    Option ((List Text × Value) × Text) :=
  match keys maxDepth t with
  | some (path, '=' :: rest) =>
    (value (skipBlanks rest)).map fun (v, rest) => ((path, v), rest)
  | _ => none

/-- The values up to the closing bracket, at most so many, and what follows. -/
def items (value : Text → Option (Value × Text)) : Nat → Text → Option (List Value × Text)
  | 0, _ => none
  | n + 1, t =>
    match skipLines false t with
    | none => none
    | some (']' :: rest) => some ([], rest)
    | some t =>
      match value t with
      | none => none
      | some (v, rest) =>
        match skipLines false rest with
        | some (']' :: rest) => some ([v], rest)
        | some (',' :: rest) => (items value n rest).map fun (vs, rest) => (v :: vs, rest)
        | _ => none

/-- The pairs up to the closing brace, at least one and at most so many, and what
    follows. -/
def pairs (value : Text → Option (Value × Text)) :
    Nat → Text → Option (List (List Text × Value) × Text)
  | 0, _ => none
  | n + 1, t =>
    match pair? value t with
    | none => none
    | some (p, rest) =>
      match skipBlanks rest with
      | '\x7d' :: rest => some ([p], rest)
      | ',' :: rest => (pairs value n rest).map fun (ps, rest) => (p :: ps, rest)
      | _ => none

/-- The content of a table in braces, and what follows. -/
def inlineTable (value : Text → Option (Value × Text)) (t : Text) : Option (Value × Text) :=
  match skipBlanks t with
  | '\x7d' :: rest => some (.table .inline [], rest)
  | t =>
    match pairs value (t.length + 1) t with
    | none => none
    | some (ps, rest) => (putAll ps []).map fun entries => (.table .inline entries, rest)

/-- The value at the start of a text, nesting at most so deep, and what
    follows. -/
def value (depth : Nat) (t : Text) : Option (Value × Text) :=
  match t with
  | '"' :: _ | '\x27' :: _ => (string? t).map fun (s, rest) => (.string s, rest)
  | '[' :: rest =>
    match depth with
    | 0 => none
    | d + 1 => (items (value d) (rest.length + 1) rest).map fun (vs, rest) => (.array vs, rest)
  | '\x7b' :: rest =>
    match depth with
    | 0 => none
    | d + 1 => inlineTable (value d) rest
  | _ => scalar? t
termination_by structural depth

/-- A line of a document. -/
inductive Statement
  /-- A value of a dotted key. -/
  | pair (path : List Text) (v : Value)
  /-- The opening of a table. -/
  | header (path : List Text)
  /-- The opening of a further table of a list. -/
  | element (path : List Text)
deriving Inhabited

/-- A statement, and what follows on its line. -/
def statement? : Text → Option (Statement × Text)
  | '[' :: '[' :: rest =>
    match keys maxDepth rest with
    | some (path, ']' :: ']' :: rest) => some (.element path, rest)
    | _ => none
  | '[' :: rest =>
    match keys maxDepth rest with
    | some (path, ']' :: rest) => some (.header path, rest)
    | _ => none
  | t => (pair? (value maxDepth) t).map fun ((path, v), rest) => (.pair path v, rest)

/-- The statements of a document of at most so many lines. -/
def statementsIn : Nat → Text → Option (List Statement)
  | 0, _ => none
  | n + 1, t =>
    match skipLines false t with
    | none => none
    | some [] => some []
    | some t =>
      match statement? t with
      | none => none
      | some (s, rest) => (endLine rest).bind fun rest => (statementsIn n rest).map (s :: ·)

/-- The statements of a document. A byte order mark at its start does not
    count. -/
def statements (t : Text) : Option (List Statement) :=
  let t := if t.head? = some '\ufeff' then t.drop 1 else t
  statementsIn (t.length + 1) t

/-- The pairs below a header. -/
structure Section where
  /-- The path of the header. -/
  path : List Text
  /-- The header opens a further table of a list. -/
  isElement : Bool
  /-- The pairs. -/
  pairs : List (List Text × Value)

/-- The pairs before the first header, and the headers with the pairs below
    them. -/
def split : List Statement → List (List Text × Value) × List Section
  | [] => ([], [])
  | .pair path v :: more =>
    let (ps, sections) := split more
    ((path, v) :: ps, sections)
  | .header path :: more =>
    let (ps, sections) := split more
    ([], ⟨path, false, ps⟩ :: sections)
  | .element path :: more =>
    let (ps, sections) := split more
    ([], ⟨path, true, ps⟩ :: sections)

/-- Opens the table of a section, under the last key of its path, and fills
    it. -/
def openTable (key : Text) (s : Section) (entries : Entries) : Option Entries :=
  match find? key entries with
  | none => (putAll s.pairs []).map fun inside =>
      entries ++ [(key, if s.isElement then .tables [inside] else .table .header inside)]
  | some (.table .implicit inside) =>
    if s.isElement then none
    else (putAll s.pairs inside).map fun inside => replace key (.table .header inside) entries
  | some (.tables elements) =>
    if s.isElement then
      (putAll s.pairs []).map fun inside => replace key (.tables (elements ++ [inside])) entries
    else none
  | some _ => none

/-- Carries out the sections, one after the other. -/
def addSections : List Section → Entries → Option Entries
  | [], entries => some entries
  | s :: more, entries =>
    match s.path.getLast? with
    | some key => (within (openTable key s) s.path.dropLast entries).bind (addSections more)
    | none => none

/-- The table that the statements make. -/
def assemble (statements : List Statement) : Option Entries :=
  let (ps, sections) := split statements
  (putAll ps []).bind (addSections sections)

/-- Reads a document. -/
def parse (t : Text) : Option Entries := (statements t).bind assemble

end Tangle.Toml
