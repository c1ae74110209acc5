import Tangle.Proofs.Annotations
import Tangle.Proofs.Layout
import Tangle.Proofs.Trees

/-!
# Code below several references

A chunk *wraps* another one if all that it has is a reference to it (`Store.Wraps`). A chunk is
*nested* in another one if it is wrapped, and what wraps it is wrapped, and so on up to the other
chunk, at an indentation for each level (`Store.Nests`).

The unfolding of a chunk is the same on every trail (`Unfolding.Unfolds.unique`), so what stands
in the text of the outermost chunk is made of the text of the innermost one. At each level the
lines are read again. Naked code has no line feeds inside its lines
(`Unfolding.Unfolds.newline_notMem_render`), so a line stays one line, but a carriage return at
its end is lost: the line is *carried* through the levels (`Text.carried`). It keeps all its
characters exactly if no carriage return ends it at any level where it is read
(`Text.carried_eq_iff`).
-/

namespace Tangle

/-! ## Lines -/

namespace Text

theorem chomp_prefix_self (t : Text) : chomp t <+: t := by
  rw [chomp]
  split
  · exact List.dropLast_prefix t
  · exact List.prefix_rfl

theorem chomp_eq_self_iff {t : Text} : chomp t = t ↔ t.getLast? ≠ some '\r' := by
  rw [chomp]
  split
  · rename_i h
    have hlast : t.dropLast ++ ['\r'] = t := List.dropLast_append_getLast? _ h
    refine iff_of_false (fun e => ?_) (absurd h)
    rw [e] at hlast
    simp at hlast
  · rename_i h
    exact iff_of_true rfl h

/-- What becomes of a line that is moved through levels of references, from the innermost
    indentation to the outermost. -/
def carried (indents : List Text) (line : Text) : Text :=
  indents.foldr (fun indent line => indent ++ chomp line) line

theorem carried_cons (indent : Text) (indents : List Text) (line : Text) :
    carried (indent :: indents) line = indent ++ chomp (carried indents line) := rfl

theorem length_carried_le (indents : List Text) (line : Text) :
    (carried indents line).length ≤ (indents.flatten ++ line).length := by
  induction indents with
  | nil => rfl
  | cons indent indents ih =>
    have hchomp := (chomp_prefix_self (carried indents line)).length_le
    rw [carried_cons, List.flatten_cons, List.append_assoc, List.length_append, List.length_append]
    omega

theorem carried_cons_eq_iff {indent : Text} {indents : List Text} {line : Text} :
    carried (indent :: indents) line = (indent :: indents).flatten ++ line ↔
      carried indents line = indents.flatten ++ line ∧
        (indents.flatten ++ line).getLast? ≠ some '\r' := by
  rw [carried_cons, List.flatten_cons, List.append_assoc, List.append_cancel_left_eq]
  constructor
  · intro h
    -- Nothing is missing in the end, so the line was not shortened here, nor before.
    have hself : chomp (carried indents line) = carried indents line :=
      (chomp_prefix_self _).eq_of_length_le (h ▸ length_carried_le indents line)
    have hbefore := hself.symm.trans h
    exact ⟨hbefore, hbefore ▸ chomp_eq_self_iff.1 hself⟩
  · rintro ⟨h, hlast⟩
    rw [h, chomp_eq_self_iff.2 hlast]

/-- A line keeps all its characters exactly if no carriage return ends it at a level where it is
    read again. -/
theorem carried_eq_iff {indents : List Text} {line : Text} :
    carried indents line = indents.flatten ++ line ↔
      ∀ indent inner, indent :: inner <:+ indents →
        (inner.flatten ++ line).getLast? ≠ some '\r' := by
  induction indents with
  | nil => simp [carried]
  | cons indent indents ih =>
    rw [carried_cons_eq_iff, ih]
    simp only [List.suffix_cons_iff]
    constructor
    · rintro ⟨h, hlast⟩ i inner (e | hinner)
      · cases e
        exact hlast
      · exact h i inner hinner
    · intro h
      exact ⟨fun i inner hinner => h i inner (.inr hinner), h indent indents (.inl rfl)⟩

/-- The lines of a text that a line feed ends, as they are. -/
def terminated (t : Text) : List Text := (split '\n' t).dropLast

theorem terminated_unlines {code : List Text} (h : ∀ t ∈ code, '\n' ∉ t) :
    terminated (unlines code) = code := by
  have hsplit : split '\n' (unlines code) = code ++ [[]] := by
    induction code with
    | nil => rfl
    | cons line code ih =>
      obtain ⟨hline, hcode⟩ := List.forall_mem_cons.1 h
      rw [unlines, split_append, split_of_notMem hline, ih hcode]
      rfl
  rw [terminated, hsplit, List.dropLast_concat]

theorem unlines_inj {code code' : List Text} (h : ∀ t ∈ code, '\n' ∉ t)
    (h' : ∀ t ∈ code', '\n' ∉ t) : unlines code = unlines code' ↔ code = code' := by
  constructor
  · intro e
    rw [← terminated_unlines h, e, terminated_unlines h']
  · exact congrArg unlines

end Text

open Text

/-! ## Naked code -/

theorem Chunk.newline_notMem_of_mem_steps {c : Chunk} {location resume : Location} {text : Text}
    (h : .line location resume text ∈ c.steps) : '\n' ∉ text := by
  obtain ⟨o, -, hstep⟩ := List.mem_flatMap.1 h
  obtain ⟨number, hline⟩ := Occurrence.line_mem_steps_iff.1 ⟨location, resume, hstep⟩
  exact Occurrence.newline_notMem_of_mem_lines hline

namespace Unfolding

variable {s : Store} {config : Config} {t t' : Trail} {steps : List Step} {u u' : Unfolding}
  {r : Reference} {code : List Text}

/-- Steps that unfold on two trails unfold to the same. -/
theorem Unfolds.unique (h : Unfolds s t steps u) (h' : Unfolds s t' steps u') : u = u' := by
  induction h generalizing t' u' with
  | done =>
    cases h'
    rfl
  | begins _ ih =>
    cases h' with
    | begins h' => rw [ih h']
  | ends _ ih =>
    cases h' with
    | ends h' => rw [ih h']
  | plain hp _ ih =>
    cases h' with
    | plain _ h' => rw [ih h']
    | missing hp' => cases hp.symm.trans hp'
    | inserted hp' => cases hp.symm.trans hp'
  | missing hp hl _ ih =>
    cases h' with
    | plain hp' => cases hp.symm.trans hp'
    | missing hp' _ h' =>
      cases hp.symm.trans hp'
      rw [ih h']
    | inserted hp' hl' =>
      cases hp.symm.trans hp'
      cases hl.symm.trans hl'
  | inserted hp hl _ _ _ ihInside ih =>
    cases h' with
    | plain hp' => cases hp.symm.trans hp'
    | missing hp' hl' =>
      cases hp.symm.trans hp'
      cases hl.symm.trans hl'
    | inserted hp' hl' _ hinside h' =>
      cases hp.symm.trans hp'
      cases hl.symm.trans hl'
      rw [ihInside hinside, ih h']

theorem newline_notMem_replaced (hi : '\n' ∉ r.indent) (hr : '\n' ∉ r.trailing) :
    ∀ t ∈ replaced config r code, '\n' ∉ t := by
  have happend {t : Text} (ht : '\n' ∉ t) : '\n' ∉ t ++ r.trailing :=
    fun h => (List.mem_append.1 h).elim ht hr
  exact forall_mem_replaced (newline_notMem_indented hi) List.not_mem_nil (fun _ => happend)
    (happend hi)

/-- The lines of naked code have no line feeds. -/
theorem Unfolds.newline_notMem_render (h : Unfolds s t steps u)
    (hsteps : ∀ location resume text, .line location resume text ∈ steps → '\n' ∉ text)
    (config : Config) (c : Chunk) : ∀ l ∈ u.render (config.annotated .naked) c, '\n' ∉ l := by
  induction h generalizing c with
  | done => exact fun _ h => absurd h List.not_mem_nil
  | begins _ ih | ends _ ih =>
    simp only [render, anchor_naked, List.nil_append]
    exact ih (fun l r text h => hsteps l r text (List.mem_cons_of_mem _ h)) c
  | plain _ _ ih =>
    rw [render, List.forall_mem_cons]
    exact ⟨hsteps _ _ _ List.mem_cons_self,
      ih (fun l r text h => hsteps l r text (List.mem_cons_of_mem _ h)) c⟩
  | missing hp _ _ ih | inserted hp _ _ _ _ _ ih =>
    obtain ⟨hi, hr⟩ := Reference.notMem_of_parse? hp (hsteps _ _ _ List.mem_cons_self)
    simp only [render, anchor_naked, List.append_nil, List.forall_mem_append]
    exact ⟨newline_notMem_replaced hi hr,
      ih (fun l r text h => hsteps l r text (List.mem_cons_of_mem _ h)) c⟩

theorem indented_of_newline_notMem (indent : Text) (h : ∀ t ∈ code, '\n' ∉ t) :
    indented indent code = code.map (indent ++ chomp ·) := by
  rw [indented, flatMap_reread_of_newline_notMem h, List.map_map]
  rfl

end Unfolding

open Unfolding

/-! ## Nesting -/

namespace Store

variable {s : Store} {p c : Chunk} {indent : Text} {indents : List Text}

/-- All that the first chunk has is one line, which is a reference to the second one, at an
    indentation and with nothing but blanks after it. -/
inductive Wraps (s : Store) (p : Chunk) : Text → Chunk → Prop
  | reference {c : Chunk} {o : Occurrence} {number : Nat} {line : Text} {r : Reference} :
    p.occurrences = [o] → o.lines = [(number, line)] → Reference.parse? line = some r →
      r.hasTrailing = false → s.lookup r.name = some c → Wraps s p r.indent c

/-- The second chunk is nested in the first one, at indentations from the outermost to the
    innermost. -/
inductive Nests (s : Store) : Chunk → List Text → Chunk → Prop
  | here (c : Chunk) : Nests s c [] c
  | within {p c d : Chunk} {indent : Text} {indents : List Text} :
    s.Wraps p indent c → Nests s c indents d → Nests s p (indent :: indents) d

theorem Wraps.newline_notMem (h : s.Wraps p indent c) : '\n' ∉ indent := by
  obtain ⟨-, hlines, hp, -, -⟩ := h
  have hline := Occurrence.newline_notMem_of_mem_lines (hlines ▸ List.mem_cons_self)
  exact (Reference.notMem_of_parse? hp hline).1

theorem Nests.newline_notMem (h : s.Nests p indents c) : '\n' ∉ indents.flatten := by
  induction h with
  | here => exact List.not_mem_nil
  | within hw _ ih =>
    rw [List.flatten_cons, List.mem_append]
    exact not_or.2 ⟨hw.newline_notMem, ih⟩

variable {t : Trail} {u : Unfolding}

/-- The code of a chunk that wraps another one is the code of that chunk, moved. -/
theorem Wraps.render_eq (h : s.Wraps p indent c) (hu : Unfolds s t p.steps u) :
    ∃ t' v, Unfolds s t' c.steps v ∧ ∀ config : Config,
      u.render (config.annotated .naked) p =
        (v.render (config.annotated .naked) c).map (indent ++ chomp ·) := by
  obtain @⟨_, o, number, line, r, ho, hlines, hp, hr, hl⟩ := h
  have hsteps : p.steps = [.begins o.location, .line (o.location.onLine number)
      (o.location.onLine (o.shifted 0)) line, .ends (o.location.onLine o.endLine)] := by
    simp [Chunk.steps, ho, Occurrence.steps, hlines]
  rw [hsteps] at hu
  cases hu with
  | begins hu =>
    cases hu with
    | plain hp' => cases hp.symm.trans hp'
    | missing hp' hl' =>
      cases hp.symm.trans hp'
      cases hl.symm.trans hl'
    | inserted hp' hl' _ hv hu =>
      cases hp.symm.trans hp'
      cases hl.symm.trans hl'
      cases hu with
      | ends hu =>
        cases hu
        refine ⟨_, _, hv, fun config => ?_⟩
        have hcode := hv.newline_notMem_render (fun _ _ _ => Chunk.newline_notMem_of_mem_steps)
          config c
        simp [render, replaced, hr, indented_of_newline_notMem _ hcode]

/-- The code of a nested chunk is carried through all levels. -/
theorem Nests.render_eq (h : s.Nests p indents c) (hu : Unfolds s t p.steps u) :
    ∃ t' v, Unfolds s t' c.steps v ∧ ∀ config : Config,
      u.render (config.annotated .naked) p =
        (v.render (config.annotated .naked) c).map (carried indents) := by
  induction h generalizing t u with
  | here c => exact ⟨t, u, hu, fun config => (List.map_id _).symm⟩
  | within hw _ ih =>
    obtain ⟨t₁, w, hw', hrender⟩ := hw.render_eq hu
    obtain ⟨t', v, hv, hinner⟩ := ih hw'
    refine ⟨t', v, hv, fun config => ?_⟩
    rw [hrender, hinner, List.map_map]
    rfl

end Store

namespace Chunk

/-- If a chunk is nested in another one, and both are expanded to naked code, then each line of
    the text of the outer chunk is a line of the text of the inner one, carried through the
    indentations. The text is that of the inner chunk with the indentations in front of each
    line, and is otherwise the same, exactly if a carriage return ends no line at a level where
    it is read again. -/
theorem expand_nested (s : Store) (config : Config) (p c : Chunk) (indents : List Text)
    (h : s.Nests p indents c) (x y : Expansion)
    (hx : (c.expand s (config.annotated .naked)).outcome = .ok x)
    (hy : (p.expand s (config.annotated .naked)).outcome = .ok y) :
    x.text = unlines (terminated x.text) ∧
    y.text = unlines ((terminated x.text).map (carried indents)) ∧
    (y.text = unlines ((terminated x.text).map (indents.flatten ++ ·)) ↔
      ∀ line ∈ terminated x.text, ∀ indent inner, indent :: inner <:+ indents →
        (inner.flatten ++ line).getLast? ≠ some '\r') := by
  obtain ⟨v, hv, rfl⟩ := unfolds_of_expand hx
  obtain ⟨u, hu, rfl⟩ := unfolds_of_expand hy
  obtain ⟨t', v', hv', hrender⟩ := h.render_eq hu
  obtain rfl := hv'.unique hv
  have hcode := hv.newline_notMem_render (fun _ _ _ => newline_notMem_of_mem_steps) config c
  have hmoved := hu.newline_notMem_render (fun _ _ _ => newline_notMem_of_mem_steps) config p
  simp only [terminated_unlines hcode, hrender] at hmoved ⊢
  refine ⟨trivial, trivial, ?_⟩
  have hindented : ∀ l ∈ (v'.render (config.annotated .naked) c).map (indents.flatten ++ ·),
      '\n' ∉ l := by
    rw [List.forall_mem_map]
    intro l hl hn
    exact (List.mem_append.1 hn).elim h.newline_notMem (hcode l hl)
  rw [unlines_inj hmoved hindented, List.map_inj_left]
  exact forall₂_congr fun l _ => carried_eq_iff

/-- A fragment in a fragment in a fragment. -/
def boxed : Store :=
  { fragments := [ofLine "a" "  @<b@>", ofLine "b" "\t@<c@>", ofLine "c" "x"] }

theorem expand_boxed :
    let a := ofLine "a" "  @<b@>"
    let c := ofLine "c" "x"
    boxed.Nests a ["  ".toList, ['\t']] c ∧
      ∃ x y, (c.expand boxed { annotation := .naked }).outcome = .ok x ∧
        (a.expand boxed { annotation := .naked }).outcome = .ok y ∧
        x.text = "x\n".toList ∧ y.text = "  \tx\n".toList := by
  intro a c
  have hinner : boxed.Wraps (ofLine "b" "\t@<c@>") ['\t'] c :=
    .reference (r := ⟨['\t'], .ofText ['c'], []⟩) rfl rfl (by decide) (by decide) (by decide)
  have houter : boxed.Wraps a "  ".toList (ofLine "b" "\t@<c@>") :=
    .reference (r := ⟨"  ".toList, .ofText ['b'], []⟩) rfl rfl (by decide) (by decide) (by decide)
  have hnests : boxed.Nests a ["  ".toList, ['\t']] c := .within houter (.within hinner (.here c))
  have hc (t : Trail) : Unfolds boxed t c.steps _ := .begins (.plain (by decide) (.ends .done))
  have hb (t t' : Trail) (ht : t.enter c.key = .ok t') :
      Unfolds boxed t (ofLine "b" "\t@<c@>").steps _ :=
    .begins (.inserted (r := ⟨['\t'], .ofText ['c'], []⟩) (by decide) rfl ht (hc t') (.ends .done))
  have ha : Unfolds boxed (.start a.key) a.steps _ :=
    .begins (.inserted (r := ⟨"  ".toList, .ofText ['b'], []⟩) (by decide) rfl rfl (hb _ _ rfl)
      (.ends .done))
  have hx : (c.expand boxed { annotation := .naked }).outcome = .ok _ := expand_of_unfolds (hc _)
  have hy : (a.expand boxed { annotation := .naked }).outcome = .ok _ := expand_of_unfolds ha
  obtain ⟨-, htext, -⟩ := expand_nested boxed {} a c _ hnests _ _ hx hy
  exact ⟨hnests, _, _, hx, hy, by decide, htext.trans (by decide)⟩

/-- A fragment whose line ends with carriage returns, and one that refers to it. -/
def returning : List (Path × Text) :=
  [(⟨['d']⟩, "@<c@> = t\nfoo\r\r\r\n@\n@<p@> = t\n  @<c@>\n@\n".toList)]

/-- The first of these fragments. -/
def returningChunk : Chunk where
  name := .ofText ['c']
  language := ['t']
  role := .fragment
  occurrences := [⟨⟨⟨['d']⟩, 1⟩, [(2, "foo\r\r".toList)]⟩]

/-- The fragment that refers to it. -/
def referringChunk : Chunk where
  name := .ofText ['p']
  language := ['t']
  role := .fragment
  occurrences := [⟨⟨⟨['d']⟩, 4⟩, [(5, "  @<c@>".toList)]⟩]

/-- A carriage return that is left in the text of a fragment is lost where the fragment is referred
    to. -/
theorem expand_returning :
    let s := Store.ofDocuments returning
    s = { fragments := [returningChunk, referringChunk] } ∧
      s.Wraps referringChunk "  ".toList returningChunk ∧
      ∃ x y, (returningChunk.expand s { annotation := .naked }).outcome = .ok x ∧
        (referringChunk.expand s { annotation := .naked }).outcome = .ok y ∧
        x.text = "foo\r\n".toList ∧ y.text = "  foo\n".toList ∧
        y.text ≠ unlines ((terminated x.text).map ("  ".toList ++ ·)) := by
  intro s
  have hl : s.lookup (.ofText ['c']) = some returningChunk := by decide
  have hx (t : Trail) : Unfolds s t returningChunk.steps _ :=
    .begins (.plain (by decide) (.ends .done))
  have hy : Unfolds s (.start referringChunk.key) referringChunk.steps _ :=
    .begins (.inserted (r := ⟨"  ".toList, .ofText ['c'], []⟩) (by decide) hl rfl (hx _)
      (.ends .done))
  refine ⟨by decide, ?_, _, _, expand_of_unfolds (hx _), expand_of_unfolds hy, by decide,
    by decide, by decide⟩
  exact .reference (r := ⟨"  ".toList, .ofText ['c'], []⟩) rfl rfl (by decide) (by decide) hl

end Chunk

end Tangle
