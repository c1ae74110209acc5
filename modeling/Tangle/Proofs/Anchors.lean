import Tangle.Proofs.Derivations
import Tangle.Proofs.Gathering
import Tangle.Proofs.Numbering
import Tangle.Proofs.Unbroken

/-!
# Numbers in anchors

A chunk that is unfolded to its end is *printed* step by step: what stands in the output for a
step depends on this step only, given the code of the chunks that are referred to
(`Unfolding.Unfolds.render_eq`). So the lines of each block of the chunk stand together in the
output, and so do its anchors.

The location in an anchor is counted from the opening line of the block, along its lines of code.
Shebang lines are no code, so each of them makes the count fall behind by one: an anchor after
a reference has the number of the line before it, less the shebang lines above it, and the
anchor at the end has the number of the closing line, less all shebang lines
(`Block.Spans.steps_occurrence`).
-/

namespace Tangle

/-- The lines for a step of a chunk, given those for the chunks that are referred to. -/
def Step.printed (config : Config) (c : Chunk) (inner : Name → List Text) : Step → List Text
  | .begins location => Unfolding.anchor config [] c location Markers.openAnchor
  | .ends location => Unfolding.anchor config [] c location config.markers.endAnchor
  | .line _ resume text =>
    match Reference.parse? text with
    | none => [text]
    | some r =>
      Unfolding.replaced config r (inner r.name) ++
        Unfolding.anchor config r.indent c resume config.markers.continueAnchor

namespace Unfolding

variable {s : Store} {t : Trail} {steps : List Step} {u : Unfolding}

/-- The lines of the chunk of a name, if it is unfolded on a trail to its end. -/
def linesOf (s : Store) (config : Config) (t : Trail) (name : Name) : List Text :=
  match s.lookup name with
  | none => []
  | some child =>
    match t.enter child.key with
    | .error _ => []
    | .ok t' =>
      match (build s t' child.steps).outcome with
      | .error _ => []
      | .ok inside => inside.render config child

theorem linesOf_of_lookup_eq_none {config : Config} {name : Name} (h : s.lookup name = none) :
    linesOf s config t name = [] := by
  rw [linesOf, h]

theorem linesOf_of_unfolds {config : Config} {name : Name} {child : Chunk} {t' : Trail}
    {inside : Unfolding} (hl : s.lookup name = some child) (ht : t.enter child.key = .ok t')
    (h : Unfolds s t' child.steps inside) :
    linesOf s config t name = inside.render config child := by
  rw [linesOf, hl]
  simp only [ht, build_of_unfolds h]

/-- What is unfolded to its end is printed step by step. -/
theorem Unfolds.render_eq (h : Unfolds s t steps u) (config : Config) (c : Chunk) :
    u.render config c = steps.flatMap (Step.printed config c (linesOf s config t)) := by
  induction h generalizing c with
  | done => rfl
  | begins _ ih | ends _ ih => rw [render, ih, List.flatMap_cons, Step.printed]
  | plain hp _ ih =>
    rw [render, ih, List.flatMap_cons, Step.printed, hp]
    rfl
  | missing hp hl _ ih =>
    rw [render, ih, List.flatMap_cons, Step.printed, hp]
    simp only [linesOf_of_lookup_eq_none hl]
  | inserted hp hl ht hinside _ _ ih =>
    rw [render, ih, List.flatMap_cons, Step.printed, hp]
    simp only [linesOf_of_unfolds hl ht hinside]

end Unfolding

/-! ## Blocks -/

namespace Block

variable (b : Block) (document : Path) (last : Nat)

/-- The steps of a block that is closed by a line: its anchors stand for lines that are counted
    without the shebang lines. -/
def steps : List Step :=
  .begins ⟨document, b.number⟩ ::
    ((b.inside.filter isCode).map fun line =>
      .line ⟨document, line.1⟩ ⟨document, line.1 - 1 - b.shebangsAbove line.1⟩
        (Text.chomp line.2)) ++
    [.ends ⟨document, last - b.shebangs.length⟩]

variable {b last} {text : Text}

theorem Spans.unbroken (h : b.Spans (Text.numbered text) last) :
    (b.occurrence document).Unbroken := by
  intro line hline
  exact Text.newline_notMem_of_mem_numbered (h.mem_of_mem_inside (List.mem_filter.1 hline).1)

/-- The anchor after a line of code is the one for the line before it, counted without the
    shebang lines. -/
theorem Spans.shifted_eq (h : b.Spans (Text.numbered text) last) {i : Nat} {line : Nat × Text}
    (hi : (b.inside.filter isCode)[i]? = some line) :
    (b.occurrence document).shifted i = line.1 - 1 - b.shebangsAbove line.1 := by
  have hnumber := h.number_eq hi
  change b.number + i = _
  omega

/-- The anchor at the end is the one for the closing line, counted without the shebang lines. -/
theorem Spans.endLine_eq (h : b.Spans (Text.numbered text) last) :
    (b.occurrence document).endLine = last - b.shebangs.length := by
  have hlast := h.last_eq
  change b.number + ((b.inside.filter isCode).length + 1) = _
  omega

/-- The steps of the occurrence that a block adds are those of the block. -/
theorem Spans.steps_occurrence (h : b.Spans (Text.numbered text) last) :
    (b.occurrence document).steps = b.steps document last := by
  rw [Occurrence.steps, Occurrence.lines_eq (h.unbroken document), steps, h.endLine_eq]
  congr 2
  refine List.ext_getElem? fun i => ?_
  rw [List.getElem?_map, List.getElem?_zipIdx, List.getElem?_map, List.getElem?_map]
  cases hi : (b.inside.filter isCode)[i]? with
  | none => simp [occurrence, hi]
  | some line =>
    have hresume : (b.location document).onLine ((b.occurrence document).shifted i) =
        ⟨document, line.1 - 1 - b.shebangsAbove line.1⟩ := by
      rw [h.shifted_eq document hi]
      rfl
    simp only [occurrence, hi, Option.map_some, Nat.zero_add]
    rw [← hresume]
    rfl

/-- The lines of code of a block and its anchors have their numbers from the lines of the
    document, where the block is closed by the line of that number. -/
structure Anchored (b : Block) (document : Path) (last : Nat) : Prop where
  /-- The numbers of the lines of code increase. -/
  increasing : ((b.occurrence document).body.map (·.1)).Pairwise (· < ·)
  /-- They are between those of the opening line and the closing line. -/
  between : ∀ line ∈ (b.occurrence document).body, b.number < line.1 ∧ line.1 < last
  /-- They leave out the shebang lines. -/
  number : ∀ (i : Nat) (line : Nat × Text), (b.occurrence document).body[i]? = some line →
    line.1 = b.number + 1 + i + b.shebangsAbove line.1
  /-- An anchor after a line is for the line before it, less the shebang lines above it. -/
  resume : ∀ (i : Nat) (line : Nat × Text), (b.occurrence document).body[i]? = some line →
    (b.occurrence document).shifted i = line.1 - 1 - b.shebangsAbove line.1
  /-- The anchor at the end is for the closing line, less the shebang lines. -/
  close : (b.occurrence document).endLine = last - b.shebangs.length
  /-- Without shebang lines it is for the closing line. -/
  close_of_nil : b.shebangs = [] → (b.occurrence document).endLine = last
  /-- These are the anchors in the output, wherever a chunk with the block is unfolded. -/
  printed : ∀ (s : Store) (config : Config) (t : Trail) (c : Chunk) (u : Unfolding),
    b.occurrence document ∈ c.occurrences → (Unfolding.build s t c.steps).outcome = .ok u →
      (b.steps document last).flatMap (Step.printed config c (Unfolding.linesOf s config t)) <:+:
        u.render config c

theorem Spans.anchored (h : b.Spans (Text.numbered text) last) : b.Anchored document last where
  increasing := h.consecutive.pairwise_filter _
  between line hline := h.bounds (List.mem_filter.1 hline).1
  number _ _ hi := h.number_eq hi
  resume _ _ hi := h.shifted_eq document hi
  close := h.endLine_eq document
  close_of_nil hnil := by rw [h.endLine_eq, hnil, List.length_nil, Nat.sub_zero]
  printed s config t c u ho hu := by
    rw [(Unfolding.unfolds_of_build hu).render_eq config c, ← h.steps_occurrence document,
      Chunk.steps, List.flatMap_assoc]
    obtain ⟨before, after, hsplit⟩ := List.append_of_mem ho
    rw [hsplit, List.flatMap_append, List.flatMap_cons]
    exact List.infix_append_of_infix_right (List.prefix_append _ _).isInfix

end Block

/-! ## Documents -/

namespace Document

/-- Each occurrence that reading a document adds to a chunk is that of a block of the document,
    from its opening line to its closing line, with lines and anchors that have their numbers
    from there. -/
theorem anchored_of_read (document : Path) (text : Text) (s : Store) (k : Key) :
    ∃ added : List Block,
      (read document text s).store.occurrences k =
          s.occurrences k ++ added.map (·.occurrence document) ∧
        ∀ b ∈ added, b.key = k ∧ ∃ last, b.Spans (Text.numbered text) last ∧
          b.Anchored document last := by
  obtain ⟨front, hfront, hreg⟩ := registerAll_of_read document text s
  refine ⟨(ofKey k (closedBlocks document front)).map (·.2), ?_, ?_⟩
  · rw [occurrences_registerAll hreg, List.map_map]
    congr 1
    refine List.map_congr_left fun x hx => ?_
    rw [Function.comp_apply, (mem_closedBlocks_iff.1 (mem_ofKey_iff.1 hx).1).1]
  · intro b hb
    obtain ⟨x, hx, rfl⟩ := List.mem_map.1 hb
    obtain ⟨hmem, hkey⟩ := mem_ofKey_iff.1 hx
    obtain ⟨-, hblock, hclosed⟩ := mem_closedBlocks_iff.1 hmem
    obtain ⟨last, hspans⟩ := exists_spans (hfront.subset hblock) hclosed
    exact ⟨hkey, last, hspans, hspans.anchored document⟩

/-- A block with shebang lines before and after a reference. -/
def scripted : Text := "@(f@) = c\n@shebang #!x\nint x;\n  @<g@>\n@shebang #!y\n@\n".toList

/-- The occurrence of the block. -/
def scriptedOccurrence : Occurrence where
  location := ⟨⟨['d']⟩, 1⟩
  body := [(3, "int x;".toList), (4, "  @<g@>".toList)]

/-- The chunk of the block. -/
def scriptedChunk : Chunk where
  name := .ofText ['f']
  language := ['c']
  role := .file (some "#!y".toList)
  occurrences := [scriptedOccurrence]

/-- The store with the chunk. -/
def scriptedStore : Store := ⟨[], [scriptedChunk]⟩

/-- The lines of the block in the output. -/
def scriptedLines : List Text :=
  ["// d:1 <f>".toList, "int x;".toList, "  // d:2 Continues <f>".toList,
    "// d:4 End of <f>".toList]

theorem anchored_of_read_scripted :
    (read ⟨['d']⟩ scripted {}).store = scriptedStore ∧
      ∃ b : Block, b.occurrence ⟨['d']⟩ = scriptedOccurrence ∧
        b.Spans (Text.numbered scripted) 6 ∧ b.Anchored ⟨['d']⟩ 6 ∧
        scriptedOccurrence.shifted 1 = 2 ∧ scriptedOccurrence.endLine = 4 ∧
        ∃ t u, (Unfolding.build scriptedStore t scriptedChunk.steps).outcome = .ok u ∧
          (b.steps ⟨['d']⟩ 6).flatMap
            (Step.printed {} scriptedChunk (Unfolding.linesOf scriptedStore {} t)) =
              scriptedLines ∧
          scriptedLines <:+: u.render {} scriptedChunk := by
  obtain ⟨added, hadded, hall⟩ := anchored_of_read ⟨['d']⟩ scripted {} ⟨.file, .ofText ['f']⟩
  have hread : (read ⟨['d']⟩ scripted {}).store = scriptedStore := by decide
  have hstore : scriptedStore.occurrences ⟨.file, .ofText ['f']⟩ = [scriptedOccurrence] := by
    decide
  rw [hread, hstore, Store.occurrences_empty, List.nil_append] at hadded
  obtain ⟨b, hb, hoccurrence⟩ :=
    List.mem_map.1 (hadded ▸ List.mem_singleton_self scriptedOccurrence)
  obtain ⟨-, last, hspans, hanchored⟩ := hall b hb
  have honly : ∀ line ∈ Text.numbered scripted, Block.closes line → line.1 = 6 := by decide
  obtain ⟨line, hline, hcloses⟩ := hspans.closing
  obtain rfl : last = 6 := honly (last, line) hline (by simp [Block.closes, hcloses])
  have hu : Unfolding.Unfolds scriptedStore (.start scriptedChunk.key) scriptedChunk.steps _ :=
    .begins (.plain (by decide) (.missing (r := ⟨[' ', ' '], .ofText ['g'], []⟩) (by decide)
      (by decide) (.ends .done)))
  have hsteps : scriptedChunk.steps = b.steps ⟨['d']⟩ 6 := by
    rw [← hspans.steps_occurrence, hoccurrence]
    rfl
  have hlines : (b.steps ⟨['d']⟩ 6).flatMap (Step.printed {} scriptedChunk
      (Unfolding.linesOf scriptedStore {} (.start scriptedChunk.key))) = scriptedLines := by
    rw [← hsteps, ← hu.render_eq]
    decide
  have hbuild := Unfolding.build_of_unfolds hu
  have hprinted := hanchored.printed scriptedStore {} _ scriptedChunk _
    (hoccurrence ▸ List.mem_singleton_self scriptedOccurrence) hbuild
  exact ⟨hread, b, hoccurrence, hspans, hanchored, rfl, rfl, _, _, hbuild, hlines,
    hlines ▸ hprinted⟩

end Document

end Tangle
