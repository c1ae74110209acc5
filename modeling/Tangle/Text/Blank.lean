/-!
# Texts and blanks

A *text* is the list of its characters. Everything the library reads or writes,
i.e., documents, names, paths and settings, is a text, so that a statement about
output is a statement about lists.

A *blank* is a character of the Unicode property `White_Space`. Blanks separate
the parts of a directive and surround the names of chunks, where they do not
count: `trim` removes them from both ends, and removing them twice removes
nothing more (`trim_trim`).
-/

namespace Tangle

/-- A text: its characters, in order. -/
abbrev Text := List Char

namespace Text

/-- The characters of the Unicode property `White_Space`. -/
def isBlank (c : Char) : Bool :=
  let n := c.toNat
  (0x09 ≤ n && n ≤ 0x0D) || n == 0x20 || n == 0x85 || n == 0xA0 || n == 0x1680 ||
    (0x2000 ≤ n && n ≤ 0x200A) || n == 0x2028 || n == 0x2029 || n == 0x202F ||
    n == 0x205F || n == 0x3000

/-- The text has nothing but blanks. -/
def allBlank (t : Text) : Bool := t.all isBlank

/-- The text without its leading blanks. -/
def trimStart (t : Text) : Text := t.dropWhile isBlank

/-- The text without its trailing blanks. -/
def trimEnd (t : Text) : Text := (t.reverse.dropWhile isBlank).reverse

/-- The text without the blanks at its ends. -/
def trim (t : Text) : Text := trimEnd (trimStart t)

/-- The text in which the letters `A` to `Z` are small; all other characters
    stay. -/
def asciiLower (t : Text) : Text := t.map Char.toLower

/-- The decimal digits of a number, without leading zeros. -/
def decimal (n : Nat) : Text := Nat.toDigits 10 n

/-- The texts with `separator` between each two. -/
def joinWith (separator : Text) : List Text → Text
  | [] => []
  | [t] => t
  | t :: ts => t ++ separator ++ joinWith separator ts

/-! ## Trimming twice -/

theorem dropWhile_dropWhile {α : Type} (p : α → Bool) (l : List α) :
    (l.dropWhile p).dropWhile p = l.dropWhile p := by
  induction l with
  | nil => rfl
  | cons a l ih => by_cases h : p a <;> simp [h, ih]

theorem trimStart_cons_of_not_blank {c : Char} (h : isBlank c = false) (t : Text) :
    trimStart (c :: t) = c :: t := by
  simp [trimStart, h]

theorem trimEnd_cons_of_not_blank {c : Char} (h : isBlank c = false) (t : Text) :
    trimEnd (c :: t) = c :: trimEnd t := by
  simp only [trimEnd, List.reverse_cons, List.dropWhile_append]
  split <;> rename_i he
  · simp_all
  · simp

theorem trimEnd_trimEnd (t : Text) : trimEnd (trimEnd t) = trimEnd t := by
  simp [trimEnd, dropWhile_dropWhile]

/-- A text starts with no blank once they are dropped. -/
theorem trimStart_eq_nil_or_cons (t : Text) :
    trimStart t = [] ∨ ∃ c r, isBlank c = false ∧ trimStart t = c :: r := by
  induction t with
  | nil => exact .inl rfl
  | cons c t ih =>
    by_cases h : isBlank c
    · simpa [trimStart, h] using ih
    · exact .inr ⟨c, t, by simpa using h, trimStart_cons_of_not_blank (by simpa using h) t⟩

theorem trim_trim (t : Text) : trim (trim t) = trim t := by
  rcases trimStart_eq_nil_or_cons t with h | ⟨c, r, hc, h⟩
  · simp only [trim, h]
    rfl
  · simp only [trim, h, trimEnd_cons_of_not_blank hc, trimStart_cons_of_not_blank hc,
      trimEnd_trimEnd]

end Text

end Tangle
