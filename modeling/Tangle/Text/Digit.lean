import Tangle.Text.Blank

/-!
# Digits

The digits of numbers in bases up to 16, with letters of either case for the
digits from ten on.
-/

namespace Tangle.Text

/-- The value of a digit, in bases up to 16. -/
def digit? (c : Char) : Option Nat :=
  let n := c.toNat
  if 0x30 ≤ n ∧ n ≤ 0x39 then some (n - 0x30)
  else if 0x61 ≤ n ∧ n ≤ 0x66 then some (n - 0x61 + 10)
  else if 0x41 ≤ n ∧ n ≤ 0x46 then some (n - 0x41 + 10)
  else none

/-- The character is a digit of a base. -/
def isDigit (base : Nat) (c : Char) : Bool := (digit? c).any (· < base)

/-- The number that the digits of a word give in a base. -/
def number (base : Nat) (t : Text) : Nat :=
  (t.filterMap digit?).foldl (fun n d => n * base + d) 0

/-- The character whose number the hexadecimal digits give. -/
def unicode? (digits : Text) : Option Char :=
  let n := number 16 digits
  if digits.all (isDigit 16) && (n < 0xD800 || (0xDFFF < n && n ≤ 0x10FFFF)) then
    some (Char.ofNat n)
  else none

end Tangle.Text
