import Tangle.Proofs.Derivations
import Tangle.Proofs.OneLine
import Mathlib.Data.List.Basic
import Mathlib.Data.List.ModifyLast

/-!
# Layout from the outside in

An expansion is made from the inside out: the text of a chunk is made first, and
moved to the indentation of a reference afterwards, where it is read again line by
line. Here the same lines are *laid out* from the outside in. The layout goes
through the chunks once, with the indentation that all references around have in
sum, and puts every line where it belongs: at the end of the lines laid out so
far. No line is read again, and only the text after a reference ever changes a
line that is there already: the last one.

If the store and the configuration have texts of one line only, then an expansion
is what is laid out (`Chunk.expand_text_eq_layout`). As no chunk is inside itself,
there is no need to go deeper than there are chunks.
-/

namespace Tangle

open Text

namespace Layout

variable (s : Store) (config : Config)

/-- The line of an anchor: the opening of a comment, the document with the number of
    the line, the words if there are any, the name in angle brackets, and the closing of
    the comment if it has one. There is a space between each two of them. -/
def anchorLine (comment : Comment) (location : Location) (words : Option Text)
    (name : Name) : Text :=
  let content := [location.document.text ++ ':' :: Nat.toDigits 10 location.line] ++
    words.toList ++ ['<' :: name.text ++ ['>']]
  match comment with
  | .line opening => [' '].intercalate (opening :: content)
  | .block opening closing => [' '].intercalate (opening :: content ++ [closing])

/-- Lays out an anchor, if the configuration asks for anchors. -/
def anchor (indent : Text) (c : Chunk) (location : Location) (words : Option Text)
    (out : List Text) : List Text :=
  if config.anchored then
    out ++ [indent ++ anchorLine (config.commentFor c.language) location words c.name]
  else out

/-- Lays out the text after a reference, if it is not blank: on a line of its own
    if there are anchors or if the reference gave no line, and otherwise at the end
    of the last line. -/
def trailing (indent : Text) (r : Reference) (before out : List Text) : List Text :=
  if r.trailing.all isBlank then out
  else if config.anchored || out.length == before.length then out ++ [indent ++ r.trailing]
  else out.modifyLast (· ++ r.trailing)

/-- Lays out a line of code of a chunk, with the location to which an anchor after
    it points, given how to lay out the chunk of a name at an indentation. -/
def line (inner : Name → Text → List Text → List Text) (c : Chunk) (indent : Text)
    (resume : Location) (text : Text) (out : List Text) : List Text :=
  match Reference.parse? text with
  | none => out ++ [indent ++ text]
  | some r =>
    anchor config (indent ++ r.indent) c resume (some config.markers.continues)
      (trailing config (indent ++ r.indent) r out (inner r.name (indent ++ r.indent) out))

/-- Lays out an occurrence: its lines, between its anchors. -/
def occurrence (inner : Name → Text → List Text → List Text) (c : Chunk) (indent : Text)
    (out : List Text) (o : Occurrence) : List Text :=
  let document := o.location.document
  let start := o.location.line
  let opened := anchor config indent c ⟨document, start⟩ none out
  let filled := o.body.zipIdx.foldl (fun out ((_, text), index) =>
    line config inner c indent ⟨document, start + index⟩ text out) opened
  anchor config indent c ⟨document, start + o.body.length + 1⟩ (some config.markers.ends) filled

/-- Lays out a chunk at an indentation, after the lines laid out so far, and what
    its references stand for, to a given depth. A reference to a chunk that is not
    defined lays out nothing. -/
def chunk : Nat → Chunk → Text → List Text → List Text
  | 0, _, _, out => out
  | depth + 1, c, indent, out =>
    c.occurrences.foldl (occurrence config (fun name indent out =>
      match s.lookup name with
      | some child => chunk depth child indent out
      | none => out) c indent) out

/-! ## Steps -/

/-- Lays out what the chunk of a name has to lay out. -/
def named (depth : Nat) (name : Name) (indent : Text) (out : List Text) : List Text :=
  match s.lookup name with
  | some child => chunk s config depth child indent out
  | none => out

/-- Lays out a step of a chunk. -/
def step (inner : Name → Text → List Text → List Text) (c : Chunk) (indent : Text)
    (out : List Text) : Step → List Text
  | .begins location => anchor config indent c location none out
  | .line _ resume text => line config inner c indent resume text out
  | .ends location => anchor config indent c location (some config.markers.ends) out

variable {s config} {c : Chunk} {indent : Text} {out : List Text}

/-- An occurrence is laid out step by step. -/
theorem foldl_steps_occurrence (inner : Name → Text → List Text → List Text) {o : Occurrence}
    (h : ∀ line ∈ o.body, OneLine line.2) :
    o.steps.foldl (step config inner c indent) out = occurrence config inner c indent out o := by
  rw [Occurrence.steps, Occurrence.lines_of_oneLine h, List.cons_append, List.foldl_cons,
    List.foldl_append, List.foldl_map]
  rfl

/-- A chunk is laid out step by step. -/
theorem foldl_steps (depth : Nat) (h : c.OneLined) :
    c.steps.foldl (step config (named s config depth) c indent) out =
      chunk s config (depth + 1) c indent out := by
  rw [Chunk.steps, List.foldl_flatMap]
  exact List.foldl_ext _ _ _ fun out o ho => foldl_steps_occurrence _ (h.body o ho)

theorem anchorLine_none (comment : Comment) (l : Location) (name : Name) :
    anchorLine comment l none name = Markers.openAnchor comment l name := by
  cases comment <;>
    simp [anchorLine, Markers.openAnchor, Comment.wrap, Location.text, Text.decimal]

theorem anchorLine_some (words : Text) (comment : Comment) (l : Location) (name : Name) :
    anchorLine comment l (some words) name = Markers.wordAnchor words comment l name := by
  cases comment <;>
    simp [anchorLine, Markers.wordAnchor, Comment.wrap, Location.text, Text.decimal]

/-- An anchor is laid out where an expansion has it, if both write it alike. -/
theorem anchor_append {words : Option Text} {written : Comment → Location → Name → Text}
    (h : ∀ comment l name, anchorLine comment l words name = written comment l name)
    (i : Text) (l : Location) :
    anchor config (indent ++ i) c l words out =
      out ++ (Unfolding.anchor config i c l written).map (indent ++ ·) := by
  rw [anchor, Unfolding.anchor, h]
  split <;> simp

/-- A text put at the end of the last line stays there if all lines are moved. -/
theorem modifyLast_append {code : List Text} (h : code ≠ []) (text : Text) :
    (out ++ code.map (indent ++ ·)).modifyLast (· ++ text) =
      out ++ (Unfolding.followed code text).map (indent ++ ·) := by
  obtain ⟨before, last, rfl⟩ := (List.eq_nil_or_concat code).resolve_left h
  rw [List.concat_eq_append, List.map_append, List.map_singleton, ← List.append_assoc,
    List.modifyLast_concat]
  simp [Unfolding.followed]

/-- The text after a reference is laid out after the code of the reference as it
    is put there. -/
theorem trailing_append {r : Reference} {code : List Text} (h : ∀ t ∈ code, OneLine t) :
    trailing config (indent ++ r.indent) r out (out ++ code.map (indent ++ r.indent ++ ·)) =
      out ++ (Unfolding.replaced config r code).map (indent ++ ·) := by
  have hblock : Unfolding.indented r.indent code = code.map (r.indent ++ ·) := by
    rw [Unfolding.indented, flatMap_reread h]
  have hmap : code.map (indent ++ r.indent ++ ·) =
      (code.map (r.indent ++ ·)).map (indent ++ ·) := by
    simp
  have hblank : (!r.hasTrailing) = r.trailing.all isBlank := Bool.not_not _
  rw [trailing, Unfolding.replaced, hblock, hmap, hblank]
  split
  · rfl
  · -- That the reference gave no line is told here by the number of lines laid out,
    -- and there by the lines of the chunk.
    have hlength : ((out ++ (code.map (r.indent ++ ·)).map (indent ++ ·)).length == out.length) =
        code.isEmpty := by
      cases code <;> simp
    rw [hlength]
    split
    · simp
    · rename_i hcode
      rw [Bool.or_eq_true, not_or] at hcode
      exact modifyLast_append (by simpa using hcode.2) r.trailing

/-- Laying out where an occurrence begins. -/
theorem step_begins (inner : Name → Text → List Text → List Text) (l : Location) :
    step config inner c indent out (.begins l) =
      out ++ (Unfolding.anchor config [] c l Markers.openAnchor).map (indent ++ ·) := by
  rw [step, ← anchor_append anchorLine_none, List.append_nil]

/-- Laying out where an occurrence ends. -/
theorem step_ends (inner : Name → Text → List Text → List Text) (l : Location) :
    step config inner c indent out (.ends l) =
      out ++ (Unfolding.anchor config [] c l config.markers.endAnchor).map (indent ++ ·) := by
  rw [step, Markers.endAnchor, ← anchor_append (anchorLine_some _), List.append_nil]

/-- Laying out a reference, given the lines that its chunk lays out. -/
theorem step_reference {inner : Name → Text → List Text → List Text} {r : Reference}
    {code : List Text} {text : Text} (hp : Reference.parse? text = some r)
    (hcode : ∀ t ∈ code, OneLine t)
    (hinner : inner r.name (indent ++ r.indent) out = out ++ code.map (indent ++ r.indent ++ ·))
    (location resume : Location) :
    step config inner c indent out (.line location resume text) =
      out ++ (Unfolding.replaced config r code ++
        Unfolding.anchor config r.indent c resume config.markers.continueAnchor).map
          (indent ++ ·) := by
  rw [step, line, hp]
  dsimp only
  rw [hinner, trailing_append hcode, anchor_append (anchorLine_some _), List.map_append,
    List.append_assoc, Markers.continueAnchor]

end Layout

/-! ## Unfoldings -/

/-- What a step has to write is on one line. -/
def Step.OneLined : Step → Prop
  | .begins location | .ends location => OneLine location.document.text
  | .line _ resume text => OneLine resume.document.text ∧ OneLine text

theorem Chunk.OneLined.steps {c : Chunk} (h : c.OneLined) : ∀ step ∈ c.steps, step.OneLined := by
  intro step hstep
  obtain ⟨o, ho, hstep⟩ := List.mem_flatMap.1 hstep
  have hdocument := h.document o ho
  rw [Occurrence.steps, Occurrence.lines_of_oneLine (h.body o ho), List.cons_append,
    List.mem_cons, List.mem_append, List.mem_map, List.mem_singleton] at hstep
  rcases hstep with rfl | ⟨⟨line, index⟩, hline, rfl⟩ | rfl
  · exact hdocument
  · exact ⟨hdocument, h.body o ho line (List.fst_mem_of_mem_zipIdx hline)⟩
  · exact hdocument

namespace Unfolding

variable {s : Store} {config : Config} {t : Trail} {steps : List Step} {u : Unfolding}
  {c : Chunk} {r : Reference} {code : List Text}

theorem oneLine_anchor {indent : Text} {l : Location} {words : Comment → Location → Name → Text}
    (hi : OneLine indent) (hw : OneLine (words (config.commentFor c.language) l c.name)) :
    ∀ t ∈ anchor config indent c l words, OneLine t := by
  rw [anchor]
  split
  · simp [hi, hw]
  · simp

/-- What holds for the lines of the code in its place, with or without the trailing text, holds
    for all lines that take the place of a reference. -/
theorem forall_mem_replaced {P : Text → Prop} (hblock : ∀ t ∈ indented r.indent code, P t)
    (hnil : P []) (htrailing : ∀ t, P t → P (t ++ r.trailing))
    (hline : P (r.indent ++ r.trailing)) : ∀ t ∈ replaced config r code, P t := by
  rw [replaced]
  split
  · exact hblock
  · split
    · exact List.forall_mem_append.2 ⟨hblock, List.forall_mem_singleton.2 hline⟩
    · refine List.forall_mem_append.2 ⟨fun t ht => hblock t (List.dropLast_subset _ ht),
        List.forall_mem_singleton.2 (htrailing _ ?_)⟩
      -- The last line, or an empty one if there were none.
      have hlast := List.getLastD_mem_cons (l := indented r.indent code) (a := [])
      rcases List.mem_cons.1 hlast with hl | hl
      · rw [hl]
        exact hnil
      · exact hblock _ hl

theorem oneLine_replaced (hi : OneLine r.indent) (hr : OneLine r.trailing)
    (hcode : ∀ t ∈ code, OneLine t) : ∀ t ∈ replaced config r code, OneLine t := by
  have hblock : ∀ t ∈ indented r.indent code, OneLine t := by
    rw [indented, flatMap_reread hcode]
    intro t ht
    obtain ⟨line, hline, rfl⟩ := List.mem_map.1 ht
    exact oneLine_append.2 ⟨hi, hcode line hline⟩
  exact forall_mem_replaced hblock oneLine_nil (fun t ht => oneLine_append.2 ⟨ht, hr⟩)
    (oneLine_append.2 ⟨hi, hr⟩)

/-- All lines of an expansion are on one line. -/
theorem Unfolds.oneLine_render (hs : s.OneLined) (hconfig : config.OneLined)
    (h : Unfolds s t steps u) (hc : OneLine c.name.text)
    (hsteps : ∀ step ∈ steps, step.OneLined) : ∀ l ∈ u.render config c, OneLine l := by
  induction h generalizing c with
  | done => exact fun _ h => absurd h List.not_mem_nil
  | begins _ ih =>
    obtain ⟨hstep, hrest⟩ := List.forall_mem_cons.1 hsteps
    rw [render, List.forall_mem_append]
    exact ⟨oneLine_anchor oneLine_nil (oneLine_openAnchor hconfig hc hstep), ih hc hrest⟩
  | ends _ ih =>
    obtain ⟨hstep, hrest⟩ := List.forall_mem_cons.1 hsteps
    rw [render, List.forall_mem_append]
    exact ⟨oneLine_anchor oneLine_nil (oneLine_wordAnchor hconfig hc hstep hconfig.ends),
      ih hc hrest⟩
  | plain _ _ ih =>
    obtain ⟨hstep, hrest⟩ := List.forall_mem_cons.1 hsteps
    rw [render, List.forall_mem_cons]
    exact ⟨hstep.2, ih hc hrest⟩
  | missing hp _ _ ih =>
    obtain ⟨hstep, hrest⟩ := List.forall_mem_cons.1 hsteps
    obtain ⟨hi, hr⟩ := Reference.oneLine_of_parse? hp hstep.2
    rw [render, List.forall_mem_append, List.forall_mem_append]
    exact ⟨⟨oneLine_replaced hi hr fun _ h => absurd h List.not_mem_nil,
      oneLine_anchor hi (oneLine_wordAnchor hconfig hc hstep.1 hconfig.continues)⟩, ih hc hrest⟩
  | inserted hp hl _ _ _ ihInside ih =>
    obtain ⟨hstep, hrest⟩ := List.forall_mem_cons.1 hsteps
    obtain ⟨hi, hr⟩ := Reference.oneLine_of_parse? hp hstep.2
    have hchild := hs _ (Store.mem_chunks_of_lookup hl)
    rw [render, List.forall_mem_append, List.forall_mem_append]
    exact ⟨⟨oneLine_replaced hi hr (ihInside hchild.name hchild.steps),
      oneLine_anchor hi (oneLine_wordAnchor hconfig hc hstep.1 hconfig.continues)⟩, ih hc hrest⟩

/-- What is unfolded on a trail is laid out, if there is room for the chunks that
    are not on the trail. -/
theorem Unfolds.layout (hs : s.OneLined) (hconfig : config.OneLined) (h : Unfolds s t steps u)
    {depth : Nat} (hdepth : s.unseen t ≤ depth) (indent : Text) (out : List Text) :
    steps.foldl (Layout.step config (Layout.named s config depth) c indent) out =
      out ++ (u.render config c).map (indent ++ ·) := by
  -- What the steps lay out is put after the lines that are there, whatever these
  -- are. So a chunk inside is laid out in place, and never moved.
  induction h generalizing c depth indent out with
  | done => simp [render]
  | begins _ ih =>
    rw [List.foldl_cons, ih hdepth, render, List.map_append, Layout.step_begins,
      List.append_assoc]
  | ends _ ih =>
    rw [List.foldl_cons, ih hdepth, render, List.map_append, Layout.step_ends,
      List.append_assoc]
  | plain hp _ ih =>
    rw [List.foldl_cons, ih hdepth, render]
    simp [Layout.step, Layout.line, hp]
  | @missing t location resume text r rest u hp hl _ ih =>
    have hinner : Layout.named s config depth r.name (indent ++ r.indent) out =
        out ++ List.map (indent ++ r.indent ++ ·) [] := by
      simp [Layout.named, hl]
    rw [List.foldl_cons, ih hdepth, render, Layout.step_reference hp (by simp) hinner]
    simp
  | @inserted t t' location resume text r child rest inside u hp hl ht hinside _ ihInside ih =>
    have hmem := Store.mem_chunks_of_lookup hl
    have hchild := hs child hmem
    -- One chunk fewer is off the trail inside the child, so there is room for it.
    have hless : s.unseen t' < depth := Nat.lt_of_lt_of_le (Store.unseen_lt hmem ht) hdepth
    obtain ⟨inner, rfl⟩ : ∃ inner, depth = inner + 1 := ⟨depth - 1, by omega⟩
    have hinner : Layout.named s config (inner + 1) r.name (indent ++ r.indent) out =
        out ++ (inside.render config child).map (indent ++ r.indent ++ ·) := by
      rw [Layout.named, hl]
      dsimp only
      rw [← Layout.foldl_steps inner hchild]
      exact ihInside (by omega) (indent ++ r.indent) out
    have hcode := hinside.oneLine_render hs hconfig hchild.name hchild.steps
    rw [List.foldl_cons, ih hdepth, render, Layout.step_reference hp hcode hinner]
    simp

end Unfolding

/-- An expansion is what is laid out, if all texts are on one line. -/
theorem Chunk.expand_text_eq_layout (s : Store) (config : Config) (hs : s.OneLined)
    (hconfig : config.OneLined) (c : Chunk) (hc : c ∈ s.chunks) (x : Expansion)
    (hx : (c.expand s config).outcome = .ok x) (depth : Nat) (hdepth : s.size ≤ depth) :
    x.text = Text.unlines (Layout.chunk s config depth c [] []) := by
  obtain ⟨u, hu, rfl⟩ := unfolds_of_expand hx
  have hroom := Nat.lt_of_lt_of_le (Store.unseen_start_lt hc) hdepth
  obtain ⟨inner, rfl⟩ : ∃ inner, depth = inner + 1 := ⟨depth - 1, by omega⟩
  have hlayout := hu.layout hs hconfig (c := c) (Nat.lt_succ_iff.1 hroom) [] []
  rw [Layout.foldl_steps inner (hs c hc)] at hlayout
  simp [hlayout]

/-- A file chunk that refers to a fragment and to a chunk that is not defined. Its language
    has comments with two delimiters. -/
def Chunk.outer : Chunk where
  name := .ofText ['f']
  language := "css".toList
  role := .file none
  occurrences := [⟨⟨.ofString "d", 1⟩, [(2, "  @<b@>;".toList), (3, " @<none@>z".toList)]⟩]

/-- A fragment of two lines. Its language has comments up to the end of the line. -/
def Chunk.inner : Chunk where
  name := .ofText ['b']
  language := ['c']
  role := .fragment
  occurrences := [⟨⟨.ofString "d", 5⟩, [(6, ['x']), (7, ['y'])]⟩]

/-- The store with both of them. -/
def Chunk.nested : Store := ⟨[inner], [outer]⟩

/-- The lines of the file chunk, with anchors. -/
def Chunk.outerLines : List Text :=
  ["/* d:1 <f> */".toList, "  // d:5 <b>".toList, "  x".toList, "  y".toList,
    "  // d:8 End of <b>".toList, "  ;".toList, "  /* d:1 Continues <f> */".toList,
    " z".toList, " /* d:2 Continues <f> */".toList, "/* d:4 End of <f> */".toList]

theorem Chunk.expand_outer_text :
    nested.OneLined ∧ Config.OneLined {} ∧ Config.OneLined { annotation := .naked } ∧
      outer ∈ nested.chunks ∧
      (∃ x, (outer.expand nested {}).outcome = .ok x ∧ x.text = Text.unlines outerLines ∧
        x.text = Text.unlines (Layout.chunk nested {} 2 outer [] [])) ∧
      ∃ x, (outer.expand nested { annotation := .naked }).outcome = .ok x ∧
        x.text = "  x\n  y;\n z\n".toList ∧
        x.text = Text.unlines (Layout.chunk nested { annotation := .naked } 2 outer [] []) := by
  have hs : nested.OneLined := by
    intro c hc
    rcases List.mem_pair.1 hc with rfl | rfl <;> exact ⟨by decide, by decide, by decide⟩
  have hanchored : Config.OneLined {} := ⟨by decide, by decide, by decide, by decide⟩
  have hnaked : Config.OneLined { annotation := .naked } :=
    ⟨by decide, by decide, by decide, by decide⟩
  have hc : outer ∈ nested.chunks := by decide
  have hinner : Unfolding.Unfolds nested ⟨[outer.key, inner.key], [inner.key, outer.key]⟩
      inner.steps _ :=
    .begins (.plain (by decide) (.plain (by decide) (.ends .done)))
  have houter : Unfolding.Unfolds nested (.start outer.key) outer.steps _ :=
    .begins (.inserted (r := ⟨[' ', ' '], .ofText ['b'], [';']⟩) (by decide) rfl rfl hinner
      (.missing (r := ⟨[' '], .ofText "none".toList, ['z']⟩) (by decide) (by decide)
        (.ends .done)))
  have hx : (outer.expand nested {}).outcome = .ok _ := expand_of_unfolds houter
  have hx' : (outer.expand nested { annotation := .naked }).outcome = .ok _ :=
    expand_of_unfolds houter
  exact ⟨hs, hanchored, hnaked, hc,
    ⟨_, hx, by decide, expand_text_eq_layout _ _ hs hanchored _ hc _ hx 2 (by decide)⟩,
    _, hx', by decide, expand_text_eq_layout _ _ hs hnaked _ hc _ hx' 2 (by decide)⟩

end Tangle
