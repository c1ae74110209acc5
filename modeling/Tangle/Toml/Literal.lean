import Tangle.Toml.Scalar

/-!
# Texts of TOML

A text is written in one of four ways. Between quotation marks a backslash starts
an escape; between apostrophes every character stands for itself. Three marks in
a row open and close a text of several lines; a line feed right after the opening
does not count, and up to two marks right before the closing belong to the text.
Among quotation marks, a backslash at the end of a line joins it to the next
character that is no blank.

Control characters other than the tab are not written as themselves. A line feed
in a text of several lines may have a carriage return before it, which does not
count.
-/

namespace Tangle.Toml

open Text (unicode?)

/-- The character may stand for itself in comments and texts. -/
def isContentChar (c : Char) : Bool := c == '\t' || (0x20 ≤ c.toNat && c.toNat != 0x7F)

/-- The character that a letter after a backslash stands for. -/
def escape? : Char → Option Char
  | 'b' => some '\x08'
  | 't' => some '\t'
  | 'n' => some '\n'
  | 'f' => some '\x0c'
  | 'r' => some '\r'
  | '"' => some '"'
  | '\\' => some '\\'
  | _ => none

/-- A character in front of what was read. -/
def cons (c : Char) (r : Option (Text × Text)) : Option (Text × Text) :=
  r.map fun (t, rest) => (c :: t, rest)

/-- A character, if it is one, in front of what was read. -/
def cons? (c : Option Char) (r : Option (Text × Text)) : Option (Text × Text) :=
  c.bind fun c => cons c r

/-- The text up to the closing quotation mark, and what follows. -/
def basic : Text → Option (Text × Text)
  | [] => none
  | '"' :: rest => some ([], rest)
  | '\\' :: 'u' :: a :: b :: c :: d :: rest => cons? (unicode? [a, b, c, d]) (basic rest)
  | '\\' :: 'U' :: a :: b :: c :: d :: e :: f :: g :: h :: rest =>
    cons? (unicode? [a, b, c, d, e, f, g, h]) (basic rest)
  | '\\' :: c :: rest => cons? (escape? c) (basic rest)
  | c :: rest => if isContentChar c then cons c (basic rest) else none

/-- Where the reading of a text of several lines stands. -/
inductive Mode
  /-- In the text. -/
  | text
  /-- After a backslash, before the end of the line. -/
  | slash
  /-- After the end of such a line, before the text goes on. -/
  | gap
deriving DecidableEq, Inhabited

/-- The text up to three closing quotation marks, and what follows. -/
def multiBasic : Mode → Text → Option (Text × Text)
  | _, [] => none
  | .slash, '\n' :: rest => multiBasic .gap rest
  | .slash, '\r' :: '\n' :: rest => multiBasic .gap rest
  | .slash, c :: rest => if c = ' ' ∨ c = '\t' then multiBasic .slash rest else none
  | .gap, ' ' :: rest => multiBasic .gap rest
  | .gap, '\t' :: rest => multiBasic .gap rest
  | .gap, '\n' :: rest => multiBasic .gap rest
  | .gap, '\r' :: '\n' :: rest => multiBasic .gap rest
  | _, '"' :: '"' :: '"' :: '"' :: '"' :: rest => some (['"', '"'], rest)
  | _, '"' :: '"' :: '"' :: '"' :: rest => some (['"'], rest)
  | _, '"' :: '"' :: '"' :: rest => some ([], rest)
  | _, '\\' :: ' ' :: rest => multiBasic .slash rest
  | _, '\\' :: '\t' :: rest => multiBasic .slash rest
  | _, '\\' :: '\n' :: rest => multiBasic .gap rest
  | _, '\\' :: '\r' :: '\n' :: rest => multiBasic .gap rest
  | _, '\\' :: 'u' :: a :: b :: c :: d :: rest =>
    cons? (unicode? [a, b, c, d]) (multiBasic .text rest)
  | _, '\\' :: 'U' :: a :: b :: c :: d :: e :: f :: g :: h :: rest =>
    cons? (unicode? [a, b, c, d, e, f, g, h]) (multiBasic .text rest)
  | _, '\\' :: c :: rest => cons? (escape? c) (multiBasic .text rest)
  | _, '\n' :: rest => cons '\n' (multiBasic .text rest)
  | _, '\r' :: '\n' :: rest => cons '\n' (multiBasic .text rest)
  | _, c :: rest => if isContentChar c then cons c (multiBasic .text rest) else none

/-- The text up to the closing apostrophe, and what follows. -/
def literal (t : Text) : Option (Text × Text) :=
  let inside := t.takeWhile (· != '\x27')
  match t.dropWhile (· != '\x27') with
  | _ :: rest => if inside.all isContentChar then some (inside, rest) else none
  | [] => none

/-- The text up to three closing apostrophes, and what follows. -/
def multiLiteral : Text → Option (Text × Text)
  | [] => none
  | '\x27' :: '\x27' :: '\x27' :: '\x27' :: '\x27' :: rest => some (['\x27', '\x27'], rest)
  | '\x27' :: '\x27' :: '\x27' :: '\x27' :: rest => some (['\x27'], rest)
  | '\x27' :: '\x27' :: '\x27' :: rest => some ([], rest)
  | '\n' :: rest => cons '\n' (multiLiteral rest)
  | '\r' :: '\n' :: rest => cons '\n' (multiLiteral rest)
  | c :: rest => if isContentChar c then cons c (multiLiteral rest) else none

/-- A text without the line feed at its start. -/
def dropNewline : Text → Text
  | '\n' :: rest => rest
  | '\r' :: '\n' :: rest => rest
  | t => t

/-- The text that is written at the start, and what follows. -/
def string? : Text → Option (Text × Text)
  | '"' :: '"' :: '"' :: rest => multiBasic .text (dropNewline rest)
  | '"' :: rest => basic rest
  | '\x27' :: '\x27' :: '\x27' :: rest => multiLiteral (dropNewline rest)
  | '\x27' :: rest => literal rest
  | _ => none

end Tangle.Toml
