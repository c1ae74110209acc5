import Tangle.Proofs.Quotation
import Tangle.Text.Split
import Tangle.Toml.Statement

/-!
# Statements are read as they were written

A text *lists* statements if reading it gives them and goes on with what follows
(`Toml.Lists`). Texts that list statements are put together by appending them
(`Toml.Lists.append`), so a whole document is read line by line
(`Toml.statements_of_lists`):

* a pair of a key and a written value lists that pair (`Toml.lists_renderPair`);
* a header lists the opening of its table (`Toml.lists_renderHeader`).

A value is *written* as a text if it is read from there whatever follows, but for a mark
(`Toml.Writes`). Texts and lists of texts are (`Toml.writes_renderText`,
`Toml.writes_renderTexts`).
-/

namespace Tangle.Toml

/-! ## Values -/

/-- The value is written as the text. -/
structure Writes (depth : Nat) (x : Text) (v : Value) : Prop where
  /-- The text does not start with a blank. -/
  skipBlanks : ∀ rest, skipBlanks (x ++ rest) = x ++ rest
  /-- It is read as the value, nesting at most so deep, and what follows is left. -/
  read : ∀ {rest}, Delimits rest → value depth (x ++ rest) = some (v, rest)

/-- What is written starts with a mark. -/
theorem renderText_eq_cons (t : Text) :
    ∃ u, renderText t = '"' :: u ∨ renderText t = '\x27' :: u := by
  rw [renderText]
  split_ifs
  · exact ⟨_, .inl rfl⟩
  · exact ⟨_, .inr rfl⟩
  · exact ⟨_, .inl rfl⟩
  · exact ⟨_, .inr rfl⟩
  · exact ⟨_, .inl rfl⟩
  · exact ⟨_, .inl rfl⟩

theorem writes_renderText (depth : Nat) (t : Text) : Writes depth (renderText t) (.string t) := by
  obtain ⟨u, hu⟩ := renderText_eq_cons t
  refine ⟨fun rest => ?_, fun {rest} hrest => ?_⟩
  · rcases hu with hu | hu <;> rw [hu] <;> rfl
  · have hread := string?_renderText t hrest
    rcases hu with hu | hu
    all_goals
      rw [hu, List.cons_append] at hread ⊢
      rw [value, hread]
      rfl

/-- A written text is not skipped. -/
theorem skipLines_renderText (t u : Text) :
    skipLines false (renderText t ++ u) = some (renderText t ++ u) := by
  obtain ⟨v, hv | hv⟩ := renderText_eq_cons t <;> rw [hv] <;> rfl

/-- Line feeds before an item do not count. -/
theorem items_newline (read : Text → Option (Value × Text)) (n : Nat) (t : Text) :
    items read n ('\n' :: t) = items read n t := by
  cases n <;> rfl

theorem delimits_cons {c : Char} (u : Text) (h : c ≠ '"') (h' : c ≠ '\x27') :
    Delimits (c :: u) :=
  ⟨by simpa using h, by simpa using h'⟩

/-- A text before the closing bracket is the last item. -/
theorem items_last (depth n : Nat) (t rest : Text) :
    items (value depth) (n + 1) (renderText t ++ ']' :: rest) = some ([.string t], rest) := by
  have hread := (writes_renderText depth t).read
    (delimits_cons (c := ']') rest (by decide) (by decide))
  have hskip := skipLines_renderText t (']' :: rest)
  obtain ⟨v, hv | hv⟩ := renderText_eq_cons t
  all_goals
    rw [hv, List.cons_append] at hread hskip ⊢
    rw [items, hskip]
    simp [hread, skipLines]

/-- A text before a comma is an item, and others may follow. -/
theorem items_cons (depth n : Nat) (t rest : Text) :
    items (value depth) (n + 1) (renderText t ++ ',' :: rest) =
      (items (value depth) n rest).map fun (vs, rest) => (.string t :: vs, rest) := by
  have hread := (writes_renderText depth t).read
    (delimits_cons (c := ',') rest (by decide) (by decide))
  have hskip := skipLines_renderText t (',' :: rest)
  obtain ⟨v, hv | hv⟩ := renderText_eq_cons t
  all_goals
    rw [hv, List.cons_append] at hread hskip ⊢
    rw [items, hskip]
    simp [hread, skipLines]

/-- Texts on lines of their own are items. -/
theorem items_lines (depth : Nat) (ts : List Text) {n : Nat} (hn : ts.length < n) (rest : Text) :
    items (value depth) n ((ts.flatMap fun t => "    ".toList ++ renderText t ++ ",\n".toList) ++
      ']' :: rest) = some (ts.map .string, rest) := by
  induction ts generalizing n with
  | nil =>
    cases n with
    | zero => cases hn
    | succ n => rfl
  | cons t ts ih =>
    cases n with
    | zero => cases hn
    | succ n =>
      have hblanks (u : Text) : items (value depth) (n + 1) ("    ".toList ++ u) =
        items (value depth) (n + 1) u := rfl
      have hcomma (u : Text) : ",\n".toList ++ u = ',' :: '\n' :: u := rfl
      rw [List.flatMap_cons, List.append_assoc, List.append_assoc, List.append_assoc, hblanks,
        hcomma, items_cons, items_newline, ih (Nat.lt_of_succ_lt_succ hn)]
      rfl

/-- There are fewer lines than characters on them. -/
theorem length_le_length_flatMap {α : Type} {f : α → Text} (hf : ∀ a, f a ≠ []) (as : List α) :
    as.length ≤ (as.flatMap f).length := by
  induction as with
  | nil => exact Nat.le_refl 0
  | cons a as ih =>
    have ha : 0 < (f a).length := List.length_pos_iff.2 (hf a)
    rw [List.flatMap_cons, List.length_append, List.length_cons]
    omega

/-- A list of texts is read as it was written. -/
theorem writes_renderTexts (depth : Nat) (ts : List Text) :
    Writes (depth + 1) (renderTexts ts) (.array (ts.map .string)) := by
  match ts with
  | [] => exact ⟨fun _ => rfl, fun _ => rfl⟩
  | [t] =>
    refine ⟨fun _ => rfl, fun {rest} _ => ?_⟩
    rw [renderTexts, List.append_assoc, List.cons_append, List.singleton_append, value, items_last]
    rfl
  | t :: t' :: ts =>
    refine ⟨fun _ => rfl, fun {rest} _ => ?_⟩
    have hopen (u : Text) : value (depth + 1) ("[\n".toList ++ u) =
        (items (value depth) (u.length + 2) u).map fun (vs, rest) => (.array vs, rest) := by
      have hlead : "[\n".toList ++ u = '[' :: '\n' :: u := rfl
      rw [hlead, value, items_newline]
      rfl
    have hlength := length_le_length_flatMap (f := fun t => "    ".toList ++ renderText t ++
      ",\n".toList) (fun t => by simp) (t :: t' :: ts)
    rw [renderTexts, List.append_assoc, List.append_assoc, hopen, List.singleton_append,
      items_lines]
    · rfl
    · rw [List.length_append]
      omega
    all_goals simp

/-! ## Keys -/

/-- The text is a key without quotes. -/
def IsKey (key : Text) : Prop := key ≠ [] ∧ key.all isKeyChar

instance (key : Text) : Decidable (IsKey key) := inferInstanceAs (Decidable (_ ∧ _))

variable {key : Text}

theorem ne_of_isKeyChar {c x : Char} (h : isKeyChar c) (hx : isKeyChar x = false) : c ≠ x := by
  rintro rfl
  exact Bool.false_ne_true (hx.symm.trans h)

theorem IsKey.eq_cons (h : IsKey key) : ∃ c tail, key = c :: tail ∧ isKeyChar c := by
  obtain ⟨hne, hall⟩ := h
  obtain ⟨c, tail, rfl⟩ := List.exists_cons_of_ne_nil hne
  exact ⟨c, tail, rfl, List.all_eq_true.1 hall c List.mem_cons_self⟩

/-- A key does not start with a blank. -/
theorem IsKey.skipBlanks (h : IsKey key) (rest : Text) :
    skipBlanks (key ++ rest) = key ++ rest := by
  obtain ⟨c, tail, rfl, hc⟩ := h.eq_cons
  have h1 : c ≠ ' ' := ne_of_isKeyChar hc (by decide)
  have h2 : c ≠ '\t' := ne_of_isKeyChar hc (by decide)
  rw [List.cons_append, Toml.skipBlanks, List.dropWhile_cons_of_neg]
  simp [h1, h2]

/-- A key does not start with a line end or a comment. -/
theorem IsKey.skipLines (h : IsKey key) (rest : Text) :
    skipLines false (key ++ rest) = some (key ++ rest) := by
  obtain ⟨c, tail, rfl, hc⟩ := h.eq_cons
  have h1 : c ≠ ' ' := ne_of_isKeyChar hc (by decide)
  have h2 : c ≠ '\t' := ne_of_isKeyChar hc (by decide)
  have h3 : c ≠ '\n' := ne_of_isKeyChar hc (by decide)
  have h4 : c ≠ '\r' := ne_of_isKeyChar hc (by decide)
  have h5 : c ≠ '#' := ne_of_isKeyChar hc (by decide)
  rw [List.cons_append, Toml.skipLines]
  all_goals simp [h1, h2, h3, h4, h5]

/-- A key is read up to the first character that is none of its own. -/
theorem IsKey.simpleKey? (h : IsKey key) {c : Char} (hc : isKeyChar c = false) (rest : Text) :
    simpleKey? (key ++ c :: rest) = some (key, c :: rest) := by
  have hall := List.all_eq_true.1 h.2
  have htake : (key ++ c :: rest).takeWhile isKeyChar = key := by
    rw [List.takeWhile_append_of_pos hall, List.takeWhile_cons_of_neg (by simp [hc]),
      List.append_nil]
  have hdrop : (key ++ c :: rest).dropWhile isKeyChar = c :: rest := by
    rw [List.dropWhile_append_of_pos hall, List.dropWhile_cons_of_neg (by simp [hc])]
  obtain ⟨d, tail, rfl, hd⟩ := h.eq_cons
  rw [List.cons_append] at htake hdrop ⊢
  rw [Toml.simpleKey?, htake, hdrop]
  · rfl
  · exact fun _ e => ne_of_isKeyChar hd (by decide) (List.cons.inj e).1
  · exact fun _ e => ne_of_isKeyChar hd (by decide) (List.cons.inj e).1

/-- A key before an equals sign. -/
theorem IsKey.keys_equals (h : IsKey key) (n : Nat) (rest : Text) :
    keys (n + 1) (key ++ ' ' :: '=' :: rest) = some ([key], '=' :: rest) := by
  rw [keys, h.skipBlanks, h.simpleKey? (by decide)]
  rfl

/-- A dotted key before a bracket. -/
theorem keys_joinWith {path : List Text} (hne : path ≠ []) (hpath : ∀ key ∈ path, IsKey key)
    {n : Nat} (hn : path.length ≤ n) (rest : Text) :
    keys n (Text.joinWith ['.'] path ++ ']' :: rest) = some (path, ']' :: rest) := by
  induction path generalizing n with
  | nil => exact absurd rfl hne
  | cons key path ih =>
    obtain ⟨hkey, hpath⟩ := List.forall_mem_cons.1 hpath
    cases n with
    | zero => cases hn
    | succ n =>
      cases path with
      | nil =>
        rw [Text.joinWith, keys, hkey.skipBlanks, hkey.simpleKey? (by decide)]
        rfl
      | cons key' path =>
        have hrest := ih (List.cons_ne_nil _ _) hpath (Nat.le_of_succ_le_succ hn)
        rw [Text.joinWith_cons key (List.cons_ne_nil _ _), List.append_assoc, List.append_assoc,
          List.singleton_append, keys, hkey.skipBlanks, hkey.simpleKey? (by decide)]
        simp [skipBlanks, hrest]

/-! ## Statements -/

/-- A pair of a key and a written value is a statement. -/
theorem statement?_pair (hkey : IsKey key) {x : Text} {v : Value} (hx : Writes maxDepth x v)
    {rest : Text} (hrest : Delimits rest) :
    statement? (key ++ ' ' :: '=' :: ' ' :: (x ++ rest)) = some (.pair [key] v, rest) := by
  have hblank : skipBlanks (' ' :: (x ++ rest)) = x ++ rest := hx.skipBlanks rest
  have hpair : pair? (value maxDepth) (key ++ ' ' :: '=' :: ' ' :: (x ++ rest)) =
      some (([key], v), rest) := by
    rw [pair?, maxDepth, hkey.keys_equals]
    simp only [hblank]
    rw [← maxDepth, hx.read hrest]
    rfl
  obtain ⟨c, tail, rfl, hc⟩ := hkey.eq_cons
  have hbracket : c ≠ '[' := ne_of_isKeyChar hc (by decide)
  rw [List.cons_append] at hpair ⊢
  rw [statement?, hpair]
  · rfl
  all_goals simp [hbracket]

/-- The path of a header leads through keys without quotes. -/
structure IsPath (path : List Text) : Prop where
  /-- There is a key. -/
  ne_nil : path ≠ []
  /-- The keys are without quotes. -/
  isKey : ∀ key ∈ path, IsKey key
  /-- There are not too many. -/
  length_le : path.length ≤ maxDepth

variable {path : List Text}

/-- A dotted key in brackets is a statement. -/
theorem statement?_header (h : IsPath path) (rest : Text) :
    statement? ('[' :: (Text.joinWith ['.'] path ++ ']' :: rest)) = some (.header path, rest) := by
  -- A second bracket would open an element of a list.
  have hbracket : ∀ u, Text.joinWith ['.'] path ++ ']' :: rest ≠ '[' :: u := by
    intro u hu
    obtain ⟨key, more, rfl⟩ := List.exists_cons_of_ne_nil h.ne_nil
    obtain ⟨c, tail, rfl, hc⟩ := (h.isKey key List.mem_cons_self).eq_cons
    rw [Text.joinWith_cons_cons] at hu
    exact ne_of_isKeyChar hc (by decide) (List.cons.inj hu).1
  rw [statement?, keys_joinWith h.ne_nil h.isKey h.length_le]
  · rfl
  · exact hbracket

/-- A dotted key in two pairs of brackets is a statement. -/
theorem statement?_element (h : IsPath path) (rest : Text) :
    statement? ('[' :: '[' :: (Text.joinWith ['.'] path ++ ']' :: ']' :: rest)) =
      some (.element path, rest) := by
  rw [statement?, keys_joinWith h.ne_nil h.isKey h.length_le]
  rfl

/-! ## Lists of statements -/

/-- Reading the text gives the statements, and goes on with what follows. -/
structure Lists (x : Text) (ss : List Statement) : Prop where
  /-- There are fewer statements than characters. -/
  length : ss.length ≤ x.length
  /-- The statements are read one after the other. -/
  read : ∀ {n rest more}, statementsIn n rest = some more →
    statementsIn (n + ss.length) (x ++ rest) = some (ss ++ more)

namespace Lists

theorem nil : Lists [] [] := ⟨Nat.le_refl 0, fun h => h⟩

theorem append {x y : Text} {ss ss' : List Statement} (h : Lists x ss) (h' : Lists y ss') :
    Lists (x ++ y) (ss ++ ss') := by
  refine ⟨?_, fun {n rest more} hrest => ?_⟩
  · rw [List.length_append, List.length_append]
    exact Nat.add_le_add h.length h'.length
  · have hboth := h.read (h'.read hrest)
    rwa [Nat.add_assoc, Nat.add_comm ss'.length, ← List.length_append, ← List.append_assoc,
      ← List.append_assoc] at hboth

theorem flatMap {α : Type} {f : α → Text} {g : α → List Statement} (h : ∀ a, Lists (f a) (g a))
    (as : List α) : Lists (as.flatMap f) (as.flatMap g) := by
  induction as with
  | nil => exact nil
  | cons a as ih => exact (h a).append ih

/-- Empty lines do not count. -/
theorem newline {x : Text} {ss : List Statement} (h : Lists x ss) : Lists ('\n' :: x) ss := by
  refine ⟨Nat.le_succ_of_le h.length, fun {n rest more} hrest => ?_⟩
  rw [← h.read hrest]
  cases n + ss.length <;> rfl

/-- A statement on a line. -/
theorem line {x : Text} {s : Statement}
    (hskip : ∀ u, skipLines false (x ++ u) = some (x ++ u)) (hx : x ≠ [])
    (hread : ∀ u, statement? (x ++ '\n' :: u) = some (s, '\n' :: u)) :
    Lists (x ++ ['\n']) [s] := by
  refine ⟨by simp, fun {n rest more} hrest => ?_⟩
  obtain ⟨c, y, rfl⟩ := List.exists_cons_of_ne_nil hx
  rw [List.append_assoc, List.singleton_append, List.length_singleton, statementsIn, hskip,
    List.cons_append]
  have := hread rest
  rw [List.cons_append] at this
  simp [this, endLine, skipBlanks, hrest]

end Lists

/-- A pair lists itself. -/
theorem lists_renderPair {key : String} (hkey : IsKey key.toList) {x : Text} {v : Value}
    (hx : Writes maxDepth x v) : Lists (renderPair key x) [.pair [key.toList] v] := by
  have hline : renderPair key x = (key.toList ++ ' ' :: '=' :: ' ' :: x) ++ ['\n'] := by
    simp [renderPair]
  rw [hline]
  refine Lists.line (fun u => ?_) (by simp) fun u => ?_
  · rw [List.append_assoc]
    exact hkey.skipLines _
  · rw [List.append_assoc]
    exact statement?_pair hkey hx (delimits_cons u (by decide) (by decide))

/-- A header lists the opening of its table. -/
theorem lists_renderHeader {header : String} (hpath : IsPath path)
    (h : header.toList = '[' :: (Text.joinWith ['.'] path ++ [']'])) :
    Lists (renderHeader header) [.header path] := by
  rw [renderHeader, h]
  refine (Lists.line (fun u => rfl) (List.cons_ne_nil _ _) fun u => ?_).newline
  rw [List.cons_append, List.append_assoc]
  exact statement?_header hpath _

/-- A header in two pairs of brackets lists the opening of a further table. -/
theorem lists_renderElement {header : String} (hpath : IsPath path)
    (h : header.toList = '[' :: '[' :: (Text.joinWith ['.'] path ++ [']', ']'])) :
    Lists (renderHeader header) [.element path] := by
  rw [renderHeader, h]
  refine (Lists.line (fun u => rfl) (List.cons_ne_nil _ _) fun u => ?_).newline
  rw [List.cons_append, List.cons_append, List.append_assoc]
  exact statement?_element hpath _

/-- A document is read if it lists its statements. -/
theorem statements_of_lists {x : Text} {ss : List Statement} (h : Lists x ss)
    (hx : x.head? ≠ some '\ufeff') : statements x = some ss := by
  -- The bound on the lines is the length of the text, so some of it is left at its end.
  have hempty : statementsIn (x.length - ss.length + 1) [] = some [] := rfl
  have hread := h.read hempty
  have hfuel : x.length - ss.length + 1 + ss.length = x.length + 1 := by
    have := h.length
    omega
  rw [hfuel, List.append_nil, List.append_nil] at hread
  rw [statements, if_neg hx]
  exact hread

end Tangle.Toml
