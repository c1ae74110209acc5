import Tangle.Text.Blank

/-!
# Patterns for paths

A pattern describes a set of paths:

* `?` stands for any character, `*` for any sequence of characters;
* `[abc]` and `[a-c]` stand for one of the characters listed, `[!abc]` for one
  that is not; a `]` right after the opening is listed like any other character;
* `**` stands for any sequence of whole components, together with the separator
  after them, and at the end of the pattern for anything; it fills a component;
* any other character stands for itself.

`parse` reads a pattern, or says what is wrong with it and where, counting
characters from 0. What a pattern describes is said by `Pattern.describes`, which
tries every way to share a text among the tokens. `Pattern.accepts` decides the
same by one walk along the text for each token (`Pattern.accepts_eq_describes`).
-/

namespace Tangle.Glob

/-- What can be wrong with a pattern. -/
inductive Reason
  /-- More than two stars in a row. -/
  | stars
  /-- Two stars that do not fill a component. -/
  | component
  /-- A bracket that opens no set of characters. -/
  | range
deriving DecidableEq, Inhabited

/-- A fault of a pattern, with its position. -/
structure Fault where
  /-- The number of characters before the fault. -/
  position : Nat
  /-- What is wrong. -/
  reason : Reason
deriving DecidableEq, Inhabited

/-- The wording of what is wrong. -/
def Reason.message : Reason → String
  | stars => "wildcards are either regular `*` or recursive `**`"
  | component => "recursive wildcards must form a single path component"
  | range => "invalid range pattern"

/-- The wording of a fault. -/
def Fault.message (f : Fault) : String :=
  s!"Pattern syntax error near position {f.position}: {f.reason.message}"

/-- A range of characters, with both ends. -/
structure Range where
  /-- The first character. -/
  first : Char
  /-- The last character. -/
  last : Char
deriving DecidableEq, Inhabited

/-- The character lies in the range. -/
def Range.has (r : Range) (c : Char) : Bool := r.first ≤ c && c ≤ r.last

/-- A part of a pattern. -/
inductive Token
  /-- The character itself. -/
  | char (c : Char)
  /-- Any character. -/
  | any
  /-- A character of one of the ranges, or of none if it is `negated`. -/
  | set (negated : Bool) (ranges : List Range)
  /-- Any sequence of characters. -/
  | sequence
  /-- Any sequence of components. -/
  | components
deriving DecidableEq, Inhabited

/-- The ranges that the inside of brackets lists. -/
def ranges : Text → List Range
  | a :: '-' :: b :: rest => ⟨a, b⟩ :: ranges rest
  | a :: rest => ⟨a, a⟩ :: ranges rest
  | [] => []

/-- The characters up to the bracket that closes a set, and what follows it. The
    first character is part of the set whatever it is. -/
def set? : Text → Option (Text × Text)
  | [] => none
  | c :: rest =>
    match rest.dropWhile (· != ']') with
    | _ :: after => some (c :: rest.takeWhile (· != ']'), after)
    | [] => none

/-- The set of characters after an opening bracket, its length with the closing
    one, and what follows. -/
def bracket? : Text → Option (Token × Nat × Text)
  | '!' :: rest => (set? rest).map fun (inside, after) =>
      (.set true (ranges inside), inside.length + 2, after)
  | rest => (set? rest).map fun (inside, after) =>
      (.set false (ranges inside), inside.length + 1, after)

theorem length_of_set? {t inside after : Text} (h : set? t = some (inside, after)) :
    after.length < t.length := by
  cases t with
  | nil => simp [set?] at h
  | cons c rest =>
    have hle : (rest.dropWhile (· != ']')).length ≤ rest.length :=
      (List.dropWhile_suffix _).length_le
    simp only [set?] at h
    split at h
    · rename_i heq
      simp only [Option.some.injEq, Prod.mk.injEq] at h
      rw [heq, List.length_cons, h.2] at hle
      simp only [List.length_cons]
      omega
    · simp at h

theorem length_of_bracket? {t after : Text} {token : Token} {n : Nat}
    (h : bracket? t = some (token, n, after)) : after.length < t.length := by
  unfold bracket? at h
  split at h
  · simp only [Option.map_eq_some_iff, Prod.mk.injEq, Prod.exists] at h
    obtain ⟨_, _, hs, _, _, rfl⟩ := h
    have := length_of_set? hs
    simp only [List.length_cons]
    omega
  · simp only [Option.map_eq_some_iff, Prod.mk.injEq, Prod.exists] at h
    obtain ⟨_, _, hs, _, _, rfl⟩ := h
    exact length_of_set? hs

/-- Reads the rest of a pattern, given the character before it and its
    position. -/
def tokens (before : Option Char) (position : Nat) (t : Text) : Except Fault (List Token) :=
  match t with
  | [] => .ok []
  | '?' :: rest => (Token.any :: ·) <$> tokens (some '?') (position + 1) rest
  | '*' :: '*' :: '*' :: _ => .error ⟨position + 2, .stars⟩
  | '*' :: '*' :: rest =>
    if before.all (· == '/') then
      match rest with
      | [] => .ok [.components]
      | c :: more =>
        if c = '/' then (Token.components :: ·) <$> tokens (some '/') (position + 3) more
        else .error ⟨position + 2, .component⟩
    else .error ⟨position - 1, .component⟩
  | '*' :: rest => (Token.sequence :: ·) <$> tokens (some '*') (position + 1) rest
  | '[' :: rest =>
    match h : bracket? rest with
    | some (token, n, after) =>
      have : after.length < rest.length := length_of_bracket? h
      (token :: ·) <$> tokens (some ']') (position + 1 + n) after
    | none => .error ⟨position, .range⟩
  | c :: rest => (Token.char c :: ·) <$> tokens (some c) (position + 1) rest
termination_by t.length

/-- A pattern: its parts, in order. -/
abbrev Pattern := List Token

/-- Reads a pattern. -/
def parse (t : Text) : Except Fault Pattern := tokens none 0 t

/-- The token, if it stands for single characters, stands for this one. -/
def Token.has (token : Token) (c : Char) : Bool :=
  match token with
  | char c' => c == c'
  | any => true
  | set negated ranges => ranges.any (·.has c) != negated
  | sequence | components => false

/-- The ends of a text, from the whole of it to the empty one. -/
def ends : Text → List Text
  | [] => [[]]
  | c :: rest => (c :: rest) :: ends rest

/-- The ends of a text that follow a separator. -/
def endsAfterSeparator : Text → List Text
  | [] => []
  | c :: rest => if c = '/' then rest :: endsAfterSeparator rest else endsAfterSeparator rest

/-- For each place of a list of verdicts, whether there is a positive one at it or
    after it. -/
def someFrom : List Bool → List Bool
  | [] => []
  | v :: vs =>
    let later := someFrom vs
    (v || later.headD false) :: later

/-- For each end of a text, given a verdict on each, whether there is a positive
    one on an end that follows a later separator. -/
def someAfterSeparator : Text → List Bool → List Bool
  | c :: rest, _ :: vs =>
    let later := someAfterSeparator rest vs
    (c == '/' && vs.headD false || later.headD false) :: later
  | _, _ => [false]

namespace Pattern

/-- The pattern describes the text. -/
def describes : Pattern → Text → Bool
  | [], t => t.isEmpty
  | .sequence :: more, t => (ends t).any (describes more)
  | .components :: more, t =>
    more.isEmpty || describes more t || (endsAfterSeparator t).any (describes more)
  | token :: more, c :: t => token.has c && describes more t
  | _ :: _, [] => false

/-- For each end of the text, whether the pattern describes it. The verdicts on a
    pattern come from those on the pattern without its first token, so that the
    work is that of one walk along the text for each token. -/
def verdicts (t : Text) : Pattern → List Bool
  | [] => (ends t).map (·.isEmpty)
  | token :: more =>
    let later := verdicts t more
    match token with
    | .sequence => someFrom later
    | .components =>
      if more.isEmpty then later.map fun _ => true
      else List.zipWith (· || ·) later (someAfterSeparator t later)
    | _ => List.zipWith (fun c v => token.has c && v) t later.tail ++ [false]

/-- Decides whether the pattern describes the text. -/
def accepts (p : Pattern) (t : Text) : Bool := (verdicts t p).headD false

/-- The one text that a pattern without wildcards describes. -/
def literal? (p : Pattern) : Option Text :=
  p.mapM fun
    | .char c => some c
    | _ => none

/-! ## Deciding what a pattern describes -/

theorem headD_map_ends (f : Text → Bool) (t : Text) : ((ends t).map f).headD false = f t := by
  cases t <;> rfl

theorem map_ends_cons (f : Text → Bool) (c : Char) (t : Text) :
    (ends (c :: t)).map f = f (c :: t) :: (ends t).map f := rfl

theorem someFrom_map_ends (f : Text → Bool) (t : Text) :
    someFrom ((ends t).map f) = (ends t).map fun e => (ends e).any f := by
  induction t with
  | nil => simp [ends, someFrom]
  | cons c t ih =>
    rw [map_ends_cons, someFrom, ih, headD_map_ends, map_ends_cons]
    rfl

theorem someAfterSeparator_map_ends (f : Text → Bool) (t : Text) :
    someAfterSeparator t ((ends t).map f) =
      (ends t).map fun e => (endsAfterSeparator e).any f := by
  induction t with
  | nil => simp [ends, someAfterSeparator, endsAfterSeparator]
  | cons c t ih =>
    rw [map_ends_cons, someAfterSeparator, ih, headD_map_ends, headD_map_ends, map_ends_cons]
    by_cases h : c = '/' <;> simp [endsAfterSeparator, h]

theorem zipWith_map_ends (f : Text → Bool) (has : Char → Bool) (g : Text → Bool)
    (hcons : ∀ c e, g (c :: e) = (has c && f e)) (hnil : g [] = false) (t : Text) :
    List.zipWith (fun c v => has c && v) t ((ends t).map f).tail ++ [false] =
      (ends t).map g := by
  induction t with
  | nil => simp [ends, hnil]
  | cons c t ih =>
    rw [map_ends_cons, map_ends_cons, List.tail_cons, hcons, ← ih]
    cases t <;> simp [ends]

theorem verdicts_eq_map (t : Text) (p : Pattern) :
    verdicts t p = (ends t).map p.describes := by
  induction p with
  | nil => simp [verdicts, describes]
  | cons token more ih =>
    cases token with
    | sequence => simp only [verdicts, ih, someFrom_map_ends, describes]
    | components =>
      simp only [verdicts, ih]
      split
      · simp [describes, *]
      · simp [someAfterSeparator_map_ends, describes, *]
    | char c =>
      simp only [verdicts, ih]
      exact zipWith_map_ends _ _ _ (fun _ _ => by simp [describes]) rfl t
    | any =>
      simp only [verdicts, ih]
      exact zipWith_map_ends _ _ _ (fun _ _ => by simp [describes]) rfl t
    | set negated ranges =>
      simp only [verdicts, ih]
      exact zipWith_map_ends _ _ _ (fun _ _ => by simp [describes]) rfl t

/-- Walking along the text decides what the pattern describes. -/
theorem accepts_eq_describes (p : Pattern) (t : Text) : p.accepts t = p.describes t := by
  rw [accepts, verdicts_eq_map, headD_map_ends]

end Pattern

end Tangle.Glob
