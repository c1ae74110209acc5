import Tangle.Proofs.Reached
import Tangle.Proofs.Unbroken
import Mathlib.Data.List.Flatten

/-!
# Code with and without anchors

Two configurations that differ in their annotation only expand a chunk to the same
code: one with anchors, the other one *naked*. They fail together, with the same walk,
and leave the same references without a chunk, as an unfolding does not depend on the
configuration. What they have in common is found in the text:

* If nothing but blanks follows the references, then the naked lines are some of the
  lines with anchors, in order (`Unfolding.render_sublist`).
* Otherwise the text after a reference stands on a line of its own if there are
  anchors, and at the end of the line before if there are none. So the naked text is
  found in the other one character by character, but for carriage returns: a line
  that comes to be the last of its text loses the one at its end.

That one text is found in another says nothing about what becomes of the two once all
their lines are moved. What the induction needs is that the lines *fit*: one text is
found in the other at every indentation (`Text.Fits`).
-/

namespace Tangle

namespace Text

theorem unlines_append (code more : List Text) :
    unlines (code ++ more) = unlines code ++ unlines more := by
  induction code with
  | nil => rfl
  | cons line code ih => simp [unlines, ih]

/-! ## Carriage returns -/

/-- The text without its carriage returns. -/
def withoutReturns (t : Text) : Text := t.filter (· != '\r')

@[simp]
theorem withoutReturns_append (t t' : Text) :
    withoutReturns (t ++ t') = withoutReturns t ++ withoutReturns t' :=
  List.filter_append ..

@[simp]
theorem withoutReturns_return (t : Text) : withoutReturns ('\r' :: t) = withoutReturns t := by
  simp [withoutReturns]

theorem withoutReturns_cons {c : Char} (h : c ≠ '\r') (t : Text) :
    withoutReturns (c :: t) = c :: withoutReturns t := by
  simp [withoutReturns, h]

theorem withoutReturns_chomp (t : Text) : withoutReturns (chomp t) = withoutReturns t := by
  rw [chomp]
  split
  · rename_i h
    obtain ⟨before, rfl⟩ := List.getLast?_eq_some_iff.1 h
    simp [withoutReturns]
  · rfl

/-- The lines that written lines are read as, without carriage returns. -/
def settled (code : List Text) : List Text := (code.flatMap reread).map withoutReturns

@[simp]
theorem settled_append (code more : List Text) :
    settled (code ++ more) = settled code ++ settled more := by
  simp [settled]

theorem settled_cons (t : Text) (code : List Text) :
    settled (t :: code) = (reread t).map withoutReturns ++ settled code := by
  simp [settled]

theorem settled_of_newline_notMem {code : List Text} (h : ∀ t ∈ code, '\n' ∉ t) :
    settled code = code.map withoutReturns := by
  rw [settled, flatMap_reread_of_newline_notMem h, List.map_map]
  exact List.map_congr_left fun t _ => withoutReturns_chomp t

/-- A line and its settled lines are written alike, but for carriage returns. -/
theorem unlines_map_reread (t : Text) :
    unlines ((reread t).map withoutReturns) = withoutReturns t ++ ['\n'] := by
  rw [reread_eq_lines]
  induction t with
  | nil => rfl
  | cons c t ih =>
    by_cases hn : c = '\n'
    · subst hn
      rw [List.cons_append, lines, List.map_cons, unlines, ih,
        withoutReturns_cons (by decide)]
      rfl
    · by_cases hr : c = '\r' ∧ (t ++ ['\n']).head? = some '\n'
      · -- The carriage return ends a line, together with the line feed after it.
        obtain ⟨rfl, hhead⟩ := hr
        obtain ⟨rest, hrest⟩ := List.head?_eq_some_iff.1 hhead
        rw [List.cons_append, withoutReturns_return, ← ih, hrest, lines, lines]
      · rw [List.cons_append, lines_cons hn fun hc hhead => hr ⟨hc, hhead⟩]
        cases hl : lines (t ++ ['\n']) with
        | nil => simp [lines_eq_nil_iff] at hl
        | cons line more =>
          rw [hl, List.map_cons, unlines] at ih
          by_cases hc : c = '\r'
          · subst hc
            rw [List.map_cons, unlines, withoutReturns_return, withoutReturns_return, ih]
          · rw [List.map_cons, unlines, withoutReturns_cons hc, withoutReturns_cons hc,
              List.cons_append, List.cons_append, ih]

/-- A text without its carriage returns is written by its settled lines. -/
theorem unlines_settled (code : List Text) :
    unlines (settled code) = withoutReturns (unlines code) := by
  induction code with
  | nil => rfl
  | cons t code ih =>
    rw [settled_cons, unlines_append, ih, unlines_map_reread]
    simp [unlines, withoutReturns]

/-! ## Texts found in others -/

/-- The text of some lines is found, character by character, in the text of others,
    at every indentation. -/
def Fits (code wider : List Text) : Prop :=
  ∀ indent : Text,
    (unlines (code.map (indent ++ ·))).Sublist (unlines (wider.map (indent ++ ·)))

namespace Fits

variable {code wider code' wider' : List Text}

theorem refl (code : List Text) : Fits code code := fun _ => List.Sublist.refl _

theorem nil (wider : List Text) : Fits [] wider := fun _ => List.nil_sublist _

theorem append (h : Fits code wider) (h' : Fits code' wider') :
    Fits (code ++ code') (wider ++ wider') := by
  intro indent
  rw [List.map_append, List.map_append, unlines_append, unlines_append]
  exact (h indent).append (h' indent)

/-- Lines that are moved fit as they did before. -/
theorem indent (h : Fits code wider) (i : Text) :
    Fits (code.map (i ++ ·)) (wider.map (i ++ ·)) := by
  intro j
  simpa [Function.comp_def] using h (j ++ i)

/-- A text at the end of the last line is found in a line of its own after the
    lines. -/
theorem followed (h : Fits code wider) (hcode : code ≠ []) (i text : Text) :
    Fits (Unfolding.followed code text) (wider ++ [i ++ text]) := by
  intro j
  obtain ⟨before, last, rfl⟩ := (List.eq_nil_or_concat code).resolve_left hcode
  rw [List.concat_eq_append] at h ⊢
  -- The line feed after the last line is not needed for what comes before it.
  have hlast : (unlines (before.map (j ++ ·)) ++ (j ++ last)).Sublist
      (unlines (wider.map (j ++ ·))) := by
    refine List.Sublist.trans ?_ (h j)
    simp [unlines_append, unlines]
  have htext : (text ++ ['\n']).Sublist (unlines [j ++ (i ++ text)]) := by
    simp [unlines, ← List.append_assoc]
  have hboth := hlast.append htext
  simpa [Unfolding.followed, unlines_append, unlines] using hboth

end Fits

end Text

open Text

/-! ## Unfoldings -/

/-- The configuration with another annotation. -/
def Config.annotated (config : Config) (method : Annotation) : Config :=
  { config with annotation := method }

namespace Unfolding

variable {config : Config} {c : Chunk} {r : Reference} {code wider : List Text}

@[simp]
theorem anchor_naked (indent : Text) (l : Location) (words : Comment → Location → Name → Text) :
    anchor (config.annotated .naked) indent c l words = [] := rfl

theorem newline_notMem_indented {indent : Text} (h : '\n' ∉ indent) :
    ∀ t ∈ indented indent code, '\n' ∉ t := by
  intro t ht
  obtain ⟨line, hline, rfl⟩ := List.mem_map.1 ht
  obtain ⟨written, -, hline⟩ := List.mem_flatMap.1 hline
  rw [reread_eq_lines] at hline
  exact fun hn => (List.mem_append.1 hn).elim h (newline_notMem_of_mem_lines hline)

/-- Where there is code, there is code once it is moved. -/
theorem indented_ne_nil (indent : Text) (h : code ≠ []) : indented indent code ≠ [] := by
  obtain ⟨line, more, rfl⟩ := List.exists_cons_of_ne_nil h
  simp [indented, reread_eq_lines, lines_eq_nil_iff]

/-- Lines are settled where they are moved to as they were settled before. -/
theorem settled_indented {indent : Text} (h : '\n' ∉ indent) :
    settled (indented indent code) = (settled code).map (withoutReturns indent ++ ·) := by
  rw [settled_of_newline_notMem (newline_notMem_indented h), indented, settled, List.map_map,
    List.map_map]
  exact List.map_congr_left fun line _ => withoutReturns_append indent line

theorem settled_followed (hcode : ∀ t ∈ code, '\n' ∉ t) (hne : code ≠ []) {text : Text}
    (htext : '\n' ∉ text) :
    settled (followed code text) = followed (settled code) (withoutReturns text) := by
  obtain ⟨before, last, rfl⟩ := (List.eq_nil_or_concat code).resolve_left hne
  rw [List.concat_eq_append] at hcode ⊢
  have hfollowed : ∀ t ∈ followed (before ++ [last]) text, '\n' ∉ t := by
    have hlast := hcode last (by simp)
    simp only [followed, List.dropLast_concat, List.getLastD_concat, List.mem_append,
      List.mem_singleton]
    rintro t (ht | rfl)
    · exact hcode t (List.mem_append_left _ ht)
    · exact fun hn => (List.mem_append.1 hn).elim hlast htext
  rw [settled_of_newline_notMem hcode, settled_of_newline_notMem hfollowed]
  simp [followed]

/-- Lines that fit, fit also in the place of a reference. -/
theorem fits_replaced (hi : '\n' ∉ r.indent) (ht : '\n' ∉ r.trailing)
    (h : Fits (settled code) (settled wider)) :
    Fits (settled (replaced (config.annotated .naked) r code))
      (settled (replaced (config.annotated .anchored) r wider)) := by
  have hblock : Fits (settled (indented r.indent code)) (settled (indented r.indent wider)) := by
    rw [settled_indented hi, settled_indented hi]
    exact h.indent _
  have hline : settled [r.indent ++ r.trailing] =
      [withoutReturns r.indent ++ withoutReturns r.trailing] := by
    have hmem : '\n' ∉ r.indent ++ r.trailing := fun hn => (List.mem_append.1 hn).elim hi ht
    rw [settled_of_newline_notMem (by simpa using hmem)]
    simp
  cases hr : r.hasTrailing with
  | false => simpa [replaced, hr] using hblock
  | true =>
    have hanchored : settled (replaced (config.annotated .anchored) r wider) =
        settled (indented r.indent wider) ++
          [withoutReturns r.indent ++ withoutReturns r.trailing] := by
      simp [replaced, hr, Config.annotated, Config.anchored, hline]
    rw [hanchored]
    by_cases hcode : code = []
    · have hnaked : replaced (config.annotated .naked) r code = [r.indent ++ r.trailing] := by
        simp [replaced, hr, hcode, indented]
      rw [hnaked, hline]
      exact (Fits.nil _).append (.refl _)
    · have hnaked : replaced (config.annotated .naked) r code =
          followed (indented r.indent code) r.trailing := by
        simp [replaced, hr, hcode, Config.annotated, Config.anchored]
      have hne := indented_ne_nil r.indent hcode
      rw [hnaked, settled_followed (newline_notMem_indented hi) hne ht]
      refine hblock.followed ?_ _ _
      rw [settled_of_newline_notMem (newline_notMem_indented hi)]
      simpa using hne

/-- What is rendered naked fits into what is rendered with anchors. -/
theorem fits_render (config : Config) (u : Unfolding) (c : Chunk)
    (h : ∀ r ∈ u.references, '\n' ∉ r.indent ∧ '\n' ∉ r.trailing) :
    Fits (settled (u.render (config.annotated .naked) c))
      (settled (u.render (config.annotated .anchored) c)) := by
  induction u generalizing c with
  | done => exact .refl _
  | begins location rest ih | ends location rest ih =>
    rw [render, render, settled_append, settled_append]
    exact (Fits.nil _).append (ih c h)
  | plain text rest ih =>
    rw [render, render, settled_cons, settled_cons]
    exact (Fits.refl _).append (ih c h)
  | missing r location resume rest ih =>
    obtain ⟨⟨hi, ht⟩, hrest⟩ := List.forall_mem_cons.1 h
    rw [render, render, settled_append, settled_append, settled_append, settled_append]
    exact ((fits_replaced hi ht (.refl _)).append (.nil _)).append (ih c hrest)
  | inserted r child inside resume rest ihInside ih =>
    obtain ⟨⟨hi, ht⟩, hmore⟩ := List.forall_mem_cons.1 h
    obtain ⟨hinside, hrest⟩ := List.forall_mem_append.1 hmore
    rw [render, render, settled_append, settled_append, settled_append, settled_append]
    exact ((fits_replaced hi ht (ihInside child hinside)).append (.nil _)).append (ih c hrest)

/-- If nothing but blanks follows the references, the naked lines are some of those
    with anchors. -/
theorem render_sublist (u : Unfolding) (c : Chunk)
    (h : ∀ r ∈ u.references, r.hasTrailing = false) :
    (u.render (config.annotated .naked) c).Sublist
      (u.render (config.annotated .anchored) c) := by
  have hreplaced {r : Reference} {code wider : List Text} (hr : r.hasTrailing = false)
      (hs : code.Sublist wider) :
      (replaced (config.annotated .naked) r code).Sublist
        (replaced (config.annotated .anchored) r wider) := by
    simpa [replaced, hr, indented] using (hs.flatMap reread).map (r.indent ++ ·)
  induction u generalizing c with
  | done => exact .refl _
  | begins location rest ih | ends location rest ih =>
    rw [render, render]
    exact (List.nil_sublist _).append (ih c h)
  | plain text rest ih => exact (ih c h).cons_cons text
  | missing r location resume rest ih =>
    obtain ⟨hr, hrest⟩ := List.forall_mem_cons.1 h
    rw [render, render]
    exact ((hreplaced hr (.refl _)).append (List.nil_sublist _)).append (ih c hrest)
  | inserted r child inside resume rest ihInside ih =>
    obtain ⟨hr, hmore⟩ := List.forall_mem_cons.1 h
    obtain ⟨hinside, hrest⟩ := List.forall_mem_append.1 hmore
    rw [render, render]
    exact ((hreplaced hr (ihInside child hinside)).append (List.nil_sublist _)).append
      (ih c hrest)

end Unfolding

/-! ## Expansion -/

/-- A reference has no line feeds. -/
theorem Chunk.HasReference.newline_notMem {c : Chunk} {r : Reference} (h : c.HasReference r) :
    '\n' ∉ r.indent ∧ '\n' ∉ r.trailing := by
  obtain ⟨o, -, line, hline, hp⟩ := h
  exact Reference.notMem_of_parse? hp (Occurrence.newline_notMem_of_mem_lines hline)

theorem Unfolding.Breaks.eq_cycle {s : Store} {e : Error} {t : Trail} {steps : List Step}
    (h : Breaks s e t steps) : ∃ names, e = .cycle names := by
  induction h with
  | here _ he =>
    rw [Trail.enter] at he
    split at he <;> cases he
    exact ⟨_, rfl⟩
  | inside _ _ _ ih | later _ ih => exact ih

namespace Chunk

variable {s : Store} {c : Chunk} {config : Config}

/-- The error of an expansion is that of the unfolding. -/
theorem expand_eq_error_iff {e : Error} :
    (c.expand s config).outcome = .error e ↔ (c.unfolding s).outcome = .error e := by
  rw [expand, Report.bind_eq, Report.outcome_andThen_eq_error]
  simp

/-- The naked expansion of a chunk and the one with anchors come to the same error, or
    to the same unresolved references and to texts of which one is found in the
    other. -/
theorem expand_naked_in_anchored (s : Store) (c : Chunk) (config : Config) :
    (∃ names, (c.expand s (config.annotated .naked)).outcome = .error (.cycle names) ∧
      (c.expand s (config.annotated .anchored)).outcome = .error (.cycle names)) ∨
    ∃ x y, (c.expand s (config.annotated .naked)).outcome = .ok x ∧
      (c.expand s (config.annotated .anchored)).outcome = .ok y ∧
      x.unresolved = y.unresolved ∧
      (withoutReturns x.text).Sublist (withoutReturns y.text) ∧
      ((∀ r, s.Reaches c r → r.hasTrailing = false) →
        (lines x.text).Sublist (lines y.text)) := by
  cases hx : (c.expand s (config.annotated .naked)).outcome with
  | error e =>
    obtain ⟨names, rfl⟩ := (breaks_of_expand hx).eq_cycle
    exact .inl ⟨names, rfl, expand_eq_error_iff.2 (expand_eq_error_iff.1 hx)⟩
  | ok x =>
    obtain ⟨u, hu, rfl⟩ := unfolds_of_expand hx
    -- Both are made of this unfolding, whose references are those that are reached.
    have hreached {r : Reference} (hr : r ∈ u.references) : s.Reaches c r :=
      Store.reaches_iff.2 (hu.mem_references_iff.1 hr)
    refine .inr ⟨_, _, rfl, expand_of_unfolds hu, rfl, ?_, fun htrailing => ?_⟩
    · have hone : ∀ r ∈ u.references, '\n' ∉ r.indent ∧ '\n' ∉ r.trailing := by
        intro r hr
        obtain ⟨a, -, ha⟩ := hreached hr
        exact ha.newline_notMem
      have hsub := u.fits_render config c hone []
      simp only [List.nil_append, List.map_id'] at hsub
      rwa [unlines_settled, unlines_settled] at hsub
    · rw [lines_unlines, lines_unlines]
      exact (u.render_sublist c fun r hr => htrailing r (hreached hr)).flatMap reread

/-- A fragment that refers to another one, with nothing after the reference. -/
def pair : Store := { fragments := [ofLine "a" " @<b@>", ofLine "b" "x"] }

theorem expand_pair_naked :
    (∀ r, pair.Reaches (ofLine "a" " @<b@>") r → r.hasTrailing = false) ∧
      ∃ x y, ((ofLine "a" " @<b@>").expand pair { annotation := .naked }).outcome = .ok x ∧
        ((ofLine "a" " @<b@>").expand pair {}).outcome = .ok y ∧ x.text = " x\n".toList ∧
        (withoutReturns x.text).Sublist (withoutReturns y.text) ∧
        (lines x.text).Sublist (lines y.text) := by
  have hb : Unfolding.Unfolds pair ⟨[(ofLine "a" " @<b@>").key, (ofLine "b" "x").key],
      [(ofLine "b" "x").key, (ofLine "a" " @<b@>").key]⟩ (ofLine "b" "x").steps _ :=
    .begins (.plain (by decide) (.ends .done))
  have ha : Unfolding.Unfolds pair (.start (ofLine "a" " @<b@>").key)
      (ofLine "a" " @<b@>").steps _ :=
    .begins (.inserted (r := ⟨[' '], .ofText ['b'], []⟩) (by decide) rfl rfl hb (.ends .done))
  have htrailing : ∀ r, pair.Reaches (ofLine "a" " @<b@>") r → r.hasTrailing = false := by
    intro r hr
    have hmem := ha.mem_references_iff.2 (Store.reaches_iff.1 hr)
    rw [List.mem_singleton.1 hmem]
    decide
  rcases expand_naked_in_anchored pair (ofLine "a" " @<b@>") {} with
    ⟨names, hx, -⟩ | ⟨x, y, hx, hy, -, hsub, hlines⟩
  · cases (expand_of_unfolds ha).symm.trans hx
  · refine ⟨htrailing, x, y, hx, hy, ?_, hsub, hlines htrailing⟩
    cases (expand_of_unfolds ha).symm.trans hx
    decide

end Chunk

end Tangle
