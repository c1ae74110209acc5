import Tangle.Text.Digit
import Tangle.Toml.Value

/-!
# Numbers, dates and times of TOML

The values that are written without delimiters. Each is a word of letters,
digits and the characters `+`, `-`, `.`, `_` and `:`, but for a date and a time
of day with one blank between them.

* A whole number has 64 bits. Digits may be grouped by single underscores.
* A number with a fraction or an exponent is refused if it is positive and
  rounds to more than the largest double.
* The parts of a date and of a time of day are within their ranges; a minute may
  have a second 60.
-/

namespace Tangle.Toml

open Text (isDigit number)

/-- The word has only digits of a base, with single underscores between them. -/
def grouped (base : Nat) : Text → Bool
  | [] => false
  | [c] => isDigit base c
  | c :: '_' :: rest => isDigit base c && grouped base rest
  | c :: rest => isDigit base c && grouped base rest

/-- The word is a whole number in decimal digits, without needless zeros. -/
def isWhole (t : Text) : Bool := t == ['0'] || (grouped 10 t && t.head? != some '0')

/-- The sign of a word, and the word without it. -/
def unsigned : Text → Bool × Text
  | '-' :: t => (true, t)
  | '+' :: t => (false, t)
  | t => (false, t)

/-- A whole number. -/
def integer? (t : Text) : Option Int :=
  match t with
  | '0' :: 'x' :: digits => based 16 digits
  | '0' :: 'o' :: digits => based 8 digits
  | '0' :: 'b' :: digits => based 2 digits
  | _ =>
    let (negative, digits) := unsigned t
    if !isWhole digits then none
    else
      let n := number 10 digits
      if negative then if n ≤ Nat.pow 2 63 then some (-n) else none
      else if n < Nat.pow 2 63 then some n else none
where
  /-- A number without a sign, in a base. -/
  based (base : Nat) (digits : Text) : Option Int :=
    let n := number base digits
    if grouped base digits && n < Nat.pow 2 63 then some n else none

/-- The number `digits` times ten to the power `exponent` rounds to more than the
    largest double. -/
def overflows (digits : Nat) (exponent : Int) : Bool :=
  let limit := Nat.pow 2 1024 - Nat.pow 2 970
  let size : Int := (Nat.toDigits 10 digits).length
  if digits = 0 then false
  else if size + exponent > 310 then true
  else if size + exponent < 300 then false
  else if exponent ≥ 0 then digits * Nat.pow 10 exponent.toNat ≥ limit
  else digits ≥ limit * Nat.pow 10 (-exponent).toNat

/-- The exponent of a number with a fraction or an exponent: 0 if there is none. -/
def exponent? : Text → Option Int
  | [] => some 0
  | c :: t =>
    let (negative, digits) := unsigned t
    if (c = 'e' ∨ c = 'E') ∧ grouped 10 digits then
      some (if negative then -(number 10 digits) else number 10 digits)
    else none

/-- The word is a number with a fraction or an exponent. -/
def isFloat (t : Text) : Bool :=
  let (negative, t) := unsigned t
  let isPart (c : Char) := isDigit 10 c || c == '_'
  let whole := t.takeWhile isPart
  let (fraction, rest, hasPoint) := match t.dropWhile isPart with
    | '.' :: rest => (rest.takeWhile isPart, rest.dropWhile isPart, true)
    | rest => ([], rest, false)
  let places := (fraction.filter (isDigit 10)).length
  if t == "inf".toList || t == "nan".toList then true
  else if !isWhole whole || (hasPoint && !grouped 10 fraction) || (!hasPoint && rest.isEmpty) then
    false
  else match exponent? rest with
    | none => false
    | some e => negative || !overflows (number 10 (whole ++ fraction)) (e - places)

/-- The number that a word of exactly `n` decimal digits gives. -/
def fixed? (n : Nat) (t : Text) : Option Nat :=
  if t.length = n ∧ t.all (isDigit 10) then some (number 10 t) else none

/-- The number of days of a month. -/
def daysIn (year month : Nat) : Nat :=
  if month = 2 then
    if year % 4 = 0 ∧ (year % 100 ≠ 0 ∨ year % 400 = 0) then 29 else 28
  else if month = 4 ∨ month = 6 ∨ month = 9 ∨ month = 11 then 30 else 31

/-- The word is a date. -/
def isDate (t : Text) : Bool :=
  match fixed? 4 (t.take 4), fixed? 2 ((t.drop 5).take 2), fixed? 2 (t.drop 8) with
  | some year, some month, some day =>
    t[4]? == some '-' && t[7]? == some '-' && 1 ≤ month && month ≤ 12 && 1 ≤ day &&
      day ≤ daysIn year month
  | _, _, _ => false

/-- The word is hours and minutes. -/
def isHourMinute (t : Text) : Bool :=
  match fixed? 2 (t.take 2), fixed? 2 (t.drop 3) with
  | some hour, some minute => t[2]? == some ':' && hour ≤ 23 && minute ≤ 59
  | _, _ => false

/-- The word is a time of day. -/
def isTime (t : Text) : Bool :=
  isHourMinute (t.take 5) && t[5]? == some ':' &&
    (match fixed? 2 ((t.drop 6).take 2) with
      | some second => second ≤ 60
      | none => false) &&
    match t.drop 8 with
    | [] => true
    | '.' :: places => !places.isEmpty && places.all (isDigit 10)
    | _ => false

/-- The word is a time of day, perhaps with an offset. -/
def isOffsetTime (t : Text) : Bool :=
  let isPart (c : Char) := isDigit 10 c || c == ':' || c == '.'
  isTime (t.takeWhile isPart) &&
    match t.dropWhile isPart with
    | [] => true
    | ['Z'] | ['z'] => true
    | '+' :: offset | '-' :: offset => isHourMinute offset
    | _ => false

/-- The word is a date, a time of day, or both with a letter between them. -/
def isMoment (t : Text) : Bool :=
  isDate t || isTime t ||
    (isDate (t.take 10) && (t[10]? == some 'T' || t[10]? == some 't') && isOffsetTime (t.drop 11))

/-- The value that a word stands for. -/
def word? (t : Text) : Option Value :=
  if t == "true".toList then some (.boolean true)
  else if t == "false".toList then some (.boolean false)
  else match integer? t with
    | some n => some (.integer n)
    | none =>
      if isFloat t then some (.float t)
      else if isMoment t then some (.moment t)
      else none

/-- The characters of words. -/
def isWordChar (c : Char) : Bool :=
  c.isAlphanum || c == '+' || c == '-' || c == '.' || c == '_' || c == ':'

/-- The value without delimiters at the start of a text, and what follows it. -/
def scalar? (t : Text) : Option (Value × Text) :=
  let word := t.takeWhile isWordChar
  let rest := t.dropWhile isWordChar
  match rest with
  | ' ' :: c :: _ =>
    if isDate word && isDigit 10 c then
      let time := (rest.drop 1).takeWhile isWordChar
      if isOffsetTime time then
        some (.moment (word ++ ' ' :: time), (rest.drop 1).dropWhile isWordChar)
      else none
    else (word? word).map (·, rest)
  | _ => (word? word).map (·, rest)

end Tangle.Toml
