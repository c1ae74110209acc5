import Tangle.Toml.Literal

/-!
# Writing TOML

How texts, lists of texts, pairs and headers are written. Of the ways to write a
text, the first that fits is taken:

1. between quotation marks, if nothing but tabs is to be escaped;
2. between apostrophes, if it has no apostrophe and no line feed;
3. between three quotation marks, if nothing but tabs is to be escaped;
4. between three apostrophes, if it has no three of them in a row;
5. with escapes, between three quotation marks if it has a line feed, and
   otherwise between single ones.

A text that has control characters other than tabs and line feeds is always
written in the last way. Where three marks open the text, a line feed follows
them if the text itself has one.
-/

namespace Tangle.Toml

/-- A control character that is neither a tab nor a line feed. -/
def isControl (c : Char) : Bool :=
  (c.toNat ≤ 0x1F && c != '\t' && c != '\n') || c.toNat == 0x7F

/-- The text has `n` characters `c` in a row, of which it starts with `seen`. -/
def hasRun (c : Char) (n : Nat) (seen : Nat) : Text → Bool
  | [] => n ≤ seen
  | d :: rest => n ≤ seen || hasRun c n (if d = c then seen + 1 else 0) rest

/-- The hexadecimal digits of a control character, with capital letters. -/
def controlCode (c : Char) : Text :=
  let high := c.toNat / 16
  let low := c.toNat % 16
  "\\u00".toList ++ [Char.ofNat (0x30 + high), Char.ofNat (if low < 10 then 0x30 + low else 0x37 + low)]

/-- A character, escaped if it is a backslash or a control character other than
    the line feed. -/
def escaped (c : Char) : Text :=
  if c = '\x08' then "\\b".toList
  else if c = '\t' then "\\t".toList
  else if c = '\x0c' then "\\f".toList
  else if c = '\r' then "\\r".toList
  else if c = '\\' then "\\\\".toList
  else if isControl c then controlCode c
  else [c]

/-- The content of a text between quotation marks. -/
def basicContent (t : Text) : Text :=
  t.flatMap fun c =>
    if c = '\n' then "\\n".toList else if c = '"' then "\\\"".toList else escaped c

/-- The content of a text between three quotation marks, given how many
    unescaped marks come right before: every third in a row is escaped. -/
def multiContent (marks : Nat) : Text → Text
  | [] => []
  | c :: rest =>
    if c = '"' then
      if marks = 2 then "\\\"".toList ++ multiContent 0 rest else '"' :: multiContent (marks + 1) rest
    else if c = '\n' then '\n' :: multiContent 0 rest
    else escaped c ++ multiContent 0 rest

/-- A text between marks of which three open and close it. -/
def tripled (mark : Char) (t content : Text) : Text :=
  let marks := [mark, mark, mark]
  marks ++ (if '\n' ∈ t then ['\n'] else []) ++ content ++ marks

/-- A text as it is written. -/
def renderText (t : Text) : Text :=
  let plain := !t.any isControl
  if plain && !t.any fun c => c == '\\' || c == '"' || c == '\n' then
    '"' :: basicContent t ++ ['"']
  else if plain && !t.any fun c => c == '\x27' || c == '\n' then
    '\x27' :: t ++ ['\x27']
  else if plain && '\\' ∉ t && !hasRun '"' 3 0 t then tripled '"' t (multiContent 0 t)
  else if plain && !hasRun '\x27' 3 0 t then tripled '\x27' t t
  else if '\n' ∈ t then tripled '"' t (multiContent 0 t)
  else '"' :: basicContent t ++ ['"']

/-- A list of texts as it is written: on one line if it has at most one text, and
    otherwise each on a line of its own. -/
def renderTexts (ts : List Text) : Text :=
  match ts with
  | [] => "[]".toList
  | [t] => '[' :: renderText t ++ [']']
  | ts => "[\n".toList ++ (ts.flatMap fun t => "    ".toList ++ renderText t ++ ",\n".toList) ++ [']']

/-- A pair of a key and a written value, on a line. -/
def renderPair (key : String) (value : Text) : Text :=
  key.toList ++ " = ".toList ++ value ++ ['\n']

/-- A header, on a line after an empty one. -/
def renderHeader (header : String) : Text := '\n' :: header.toList ++ ['\n']

end Tangle.Toml
