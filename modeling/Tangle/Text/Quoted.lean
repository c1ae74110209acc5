import Tangle.Text.Printable

/-!
# Quoted texts

A text between quotes, for diagnostics: quotes and backslashes are escaped, and
so are the characters that would not show as themselves.
-/

namespace Tangle.Text

/-- A number in hexadecimal digits, with small letters. -/
def hexadecimal (n : Nat) : Text := Nat.toDigits 16 n

/-- A character between quotes. -/
def quotedChar (c : Char) : Text :=
  if c = Char.ofNat 0 then "\\0".toList
  else if c = '\t' then "\\t".toList
  else if c = '\r' then "\\r".toList
  else if c = '\n' then "\\n".toList
  else if c = '"' then "\\\"".toList
  else if c = '\\' then "\\\\".toList
  else if isPrintable c then [c]
  else "\\u\x7b".toList ++ hexadecimal c.toNat ++ "\x7d".toList

/-- A text between quotes. -/
def quoted (t : Text) : Text := '"' :: t.flatMap quotedChar ++ ['"']

end Tangle.Text
