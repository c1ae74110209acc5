import Tangle.Proofs.Anchors
import Tangle.Proofs.Reached
import Tangle.Proofs.Spelling

/-!
# References that stand for nothing

If a chunk is expanded, the references without a chunk are listed, each with its line and with
the chunk that has it. This list is exact: a line is in it if and only if it is a reference
without a chunk, and a chunk has it that is reached from the one that is expanded
(`Unfolding.Unfolds.mem_unresolved_iff`).

The lines are those of the documents (`Document.mem_unresolved_iff_of_readAll`). The code of a
block is read again before it is expanded. This may take a carriage return off the end of a
line, but changes neither the name that the line refers to (`Reference.name?_chomp`) nor its
number.
-/

namespace Tangle

open Relation

/-! ## Lines that refer to a name -/

namespace Reference

/-- The name that a line refers to. -/
def name? (line : Text) : Option Name := (parse? line).map (·.name)

variable {line : Text} {name : Name}

/-- A line refers to a name exactly if it is spelled as a reference to it. -/
theorem name?_eq_some_iff :
    name? line = some name ↔ ∃ (r : Reference) (n : Text), r.Fills line n ∧ r.name = name := by
  simp only [name?, Option.map_eq_some_iff, parse?_eq_some_iff, exists_and_right]

/-- A carriage return at the end of a line is no part of the name. -/
theorem name?_chomp (line : Text) : name? (Text.chomp line) = name? line := by
  refine Option.ext fun name => ?_
  rw [name?_eq_some_iff, name?_eq_some_iff]
  constructor
  · rintro ⟨r, n, h, hname⟩
    rcases Text.eq_chomp_or line with hline | hline
    · exact ⟨r, n, { h with eq := hline.trans h.eq }, hname⟩
    · refine ⟨{ r with trailing := r.trailing ++ ['\r'] }, n,
        { h with newline := by simp [h.newline], eq := ?_ }, hname⟩
      rw [hline, h.eq]
      simp
  · rintro ⟨r, n, h, hname⟩
    refine ⟨{ r with trailing := Text.chomp r.trailing }, n,
      { h with newline := fun hmem => h.newline ?_, eq := ?_ }, hname⟩
    · rcases Text.eq_chomp_or r.trailing with htrailing | htrailing
      · rwa [htrailing]
      · rw [htrailing]
        exact List.mem_append_left _ hmem
    · have hsplit : line = (r.indent ++ '@' :: '<' :: (n ++ ['@'])) ++ '>' :: r.trailing := by
        rw [h.eq]
        simp
      rw [hsplit, Text.chomp_append_cons (by decide)]
      simp

/-- A line that refers to a name is code if it stands in a block. -/
theorem isCode_of_name? {line : Nat × Text} (h : name? line.2 = some name) :
    Block.isCode line := by
  obtain ⟨r, n, hfills, -⟩ := name?_eq_some_iff.1 h
  have htrim : Text.trimStart line.2 = '@' :: '<' :: (n ++ '@' :: '>' :: r.trailing) := by
    rw [hfills.eq, Text.trimStart_append hfills.blank (startsSolid_bracket _)]
  have hclosing : Directive.isClosing (Text.trimStart line.2) = false := by
    rw [htrim]
    rfl
  have hshebang : Directive.shebang? (Text.trimStart line.2) = none := by
    rw [htrim]
    rfl
  have hclassify : Directive.classify line.2 ≠ .closing ∧
      ∀ given, Directive.classify line.2 ≠ .shebang given := by
    rw [Directive.classify]
    simp only [hclosing, hshebang, Bool.false_eq_true, if_false]
    split <;> simp
  rw [Block.isCode, Block.closes, Block.shebang?]
  split
  · exact absurd ‹_› (hclassify.2 _)
  · simp [hclassify.1]

end Reference

/-! ## Steps -/

/-- The step is a reference to a chunk that is not defined, and that is what the notice says. -/
def Step.Notes (s : Store) (parent : Name) (m : Unresolved) : Step → Prop
  | .line location _ text =>
    Reference.name? text = some m.name ∧ s.lookup m.name = none ∧
      m.parent = parent ∧ m.location = location
  | .begins _ | .ends _ => False

/-- A chunk comes to a step with the notice, by citing as often as need be. -/
def Store.Reports (s : Store) (c : Chunk) (m : Unresolved) : Prop :=
  ∃ a, ReflTransGen s.Cites c a ∧ ∃ step ∈ a.steps, step.Notes s a.name m

/-- A step comes to the notice of its own, and to those of its chunk. -/
def Step.Reports (s : Store) (parent : Name) (m : Unresolved) (step : Step) : Prop :=
  step.Notes s parent m ∨ ∃ b, step.target? s = some b ∧ s.Reports b m

variable {s : Store} {parent : Name} {m : Unresolved}

namespace Step

variable {location resume : Location} {text : Text} {r : Reference}

theorem reports_of_parse?_eq_none (hp : Reference.parse? text = none) :
    ¬Reports s parent m (.line location resume text) := by
  simp [Reports, Notes, target?, Reference.name?, hp]

theorem reports_of_lookup_eq_none (hp : Reference.parse? text = some r)
    (hl : s.lookup r.name = none) :
    Reports s parent m (.line location resume text) ↔ m = ⟨r.name, parent, location⟩ := by
  have htarget : (Step.line location resume text).target? s = none := by
    rw [target?, hp]
    exact hl
  simp only [Reports, htarget, reduceCtorEq, false_and, exists_false, or_false, Notes,
    Reference.name?, hp, Option.map_some, Option.some.injEq]
  constructor
  · rintro ⟨hname, -, hparent, hlocation⟩
    cases m
    simp_all
  · rintro rfl
    exact ⟨rfl, hl, rfl, rfl⟩

theorem reports_of_lookup_eq_some {child : Chunk} (hp : Reference.parse? text = some r)
    (hl : s.lookup r.name = some child) :
    Reports s parent m (.line location resume text) ↔ s.Reports child m := by
  have htarget : (Step.line location resume text).target? s = some child := by
    rw [target?, hp]
    exact hl
  simp only [Reports, htarget, Option.some.injEq, exists_eq_left', or_iff_right_iff_imp, Notes,
    Reference.name?, hp, Option.map_some]
  rintro ⟨hname, hnone, -⟩
  rw [hname, hnone] at hl
  cases hl

end Step

/-- A chunk comes to the notices that its steps come to. -/
theorem Store.reports_iff {c : Chunk} :
    s.Reports c m ↔ ∃ step ∈ c.steps, step.Reports s c.name m := by
  constructor
  · rintro ⟨a, hca, step, hstep, hm⟩
    rcases ReflTransGen.cases_head hca with rfl | ⟨b, hcb, hba⟩
    · exact ⟨step, hstep, .inl hm⟩
    · obtain ⟨first, hfirst, hb⟩ := cites_iff.1 hcb
      exact ⟨first, hfirst, .inr ⟨b, hb, a, hba, step, hstep, hm⟩⟩
  · rintro ⟨step, hstep, hm | ⟨b, hb, a, hba, hm⟩⟩
    · exact ⟨c, .refl, step, hstep, hm⟩
    · exact ⟨a, .head (cites_iff.2 ⟨step, hstep, hb⟩) hba, hm⟩

/-- An unfolding has the notices that its steps come to. -/
theorem Unfolding.Unfolds.mem_unresolved_iff {t : Trail} {steps : List Step} {u : Unfolding}
    (h : Unfolds s t steps u) :
    m ∈ u.unresolved parent ↔ ∃ step ∈ steps, step.Reports s parent m := by
  induction h generalizing parent with
  | done => simp [unresolved]
  | begins _ ih | ends _ ih =>
    rw [List.exists_mem_cons_iff, unresolved, ih]
    simp [Step.Reports, Step.Notes, Step.target?]
  | plain hp _ ih =>
    rw [List.exists_mem_cons_iff, unresolved, ih, or_iff_right (Step.reports_of_parse?_eq_none hp)]
  | missing hp hl _ ih =>
    rw [List.exists_mem_cons_iff, unresolved, List.mem_cons, ih,
      Step.reports_of_lookup_eq_none hp hl]
  | inserted hp hl _ _ _ ihInside ih =>
    -- What was inserted has the notices that its chunk comes to.
    rw [List.exists_mem_cons_iff, unresolved, List.mem_append, ih, ihInside, ← Store.reports_iff,
      Step.reports_of_lookup_eq_some hp hl]

/-! ## Blocks -/

/-- A block has the notices of the lines in it. -/
theorem Block.Spans.notes_iff {b : Block} {text : Text} {last : Nat}
    (h : b.Spans (Text.numbered text) last) {document : Path} :
    (∃ step ∈ (b.occurrence document).steps, step.Notes s parent m) ↔
      m.location.document = document ∧ m.parent = parent ∧ s.lookup m.name = none ∧
        ∃ line, (m.location.line, line) ∈ b.inside ∧ Reference.name? line = some m.name := by
  rw [h.steps_occurrence document]
  constructor
  · rintro ⟨step, hstep, hm⟩
    rw [Block.steps, List.mem_append, List.mem_cons] at hstep
    rcases hstep with (rfl | hstep) | hstep
    · cases hm
    · obtain ⟨⟨number, line⟩, hline, rfl⟩ := List.mem_map.1 hstep
      obtain ⟨hname, hl, hparent, hlocation⟩ := hm
      rw [hlocation]
      rw [Reference.name?_chomp] at hname
      exact ⟨rfl, hparent, hl, line, (List.mem_filter.1 hline).1, hname⟩
    · rw [List.mem_singleton.1 hstep] at hm
      cases hm
  · rintro ⟨rfl, hparent, hl, line, hline, hname⟩
    have hcode : (m.location.line, line) ∈ b.inside.filter isCode :=
      List.mem_filter.2 ⟨hline, Reference.isCode_of_name? hname⟩
    refine ⟨_, List.mem_append_left _ (List.mem_cons_of_mem _ (List.mem_map_of_mem hcode)), ?_⟩
    exact ⟨(Reference.name?_chomp line).trans hname, hl, hparent, rfl⟩

/-! ## Documents -/

namespace Document

variable {documents : List (Path × Text)}

/-- A chunk has the notices of the lines in its blocks. -/
theorem notes_iff (hs : readAll documents {} = .ok s) {a : Chunk} (ha : a ∈ s.chunks) :
    (∃ step ∈ a.steps, step.Notes s parent m) ↔
      m.parent = parent ∧ s.lookup m.name = none ∧
        ∃ text, (m.location.document, text) ∈ documents ∧
          ∃ b ∈ blocks (Text.numbered text), b.closed ∧ b.key = a.key ∧
            ∃ line, (m.location.line, line) ∈ b.inside ∧ Reference.name? line = some m.name := by
  have hsteps : (∃ step ∈ a.steps, step.Notes s parent m) ↔
      ∃ x ∈ ofKey a.key (allBlocks documents),
        ∃ step ∈ (x.2.occurrence x.1).steps, step.Notes s parent m := by
    rw [Chunk.steps, occurrences_of_readAll hs ha]
    simp only [List.mem_flatMap, List.mem_map]
    constructor
    · rintro ⟨step, ⟨_, ⟨x, hx, rfl⟩, hstep⟩, hm⟩
      exact ⟨x, hx, step, hstep, hm⟩
    · rintro ⟨x, hx, step, hstep, hm⟩
      exact ⟨step, ⟨_, ⟨x, hx, rfl⟩, hstep⟩, hm⟩
  rw [hsteps]
  constructor
  · rintro ⟨⟨document, b⟩, hx, hm⟩
    obtain ⟨hall, hkey⟩ := mem_ofKey_iff.1 hx
    obtain ⟨text, hd, hb, hclosed⟩ := mem_allBlocks_iff.1 hall
    obtain ⟨last, hspans⟩ := exists_spans hb hclosed
    obtain ⟨rfl, hparent, hl, hline⟩ := hspans.notes_iff.1 hm
    exact ⟨hparent, hl, text, hd, b, hb, hclosed, hkey, hline⟩
  · rintro ⟨hparent, hl, text, hd, b, hb, hclosed, hkey, hline⟩
    obtain ⟨last, hspans⟩ := exists_spans hb hclosed
    have hall : (m.location.document, b) ∈ allBlocks documents :=
      mem_allBlocks_iff.2 ⟨text, hd, hb, hclosed⟩
    exact ⟨_, mem_ofKey_iff.2 ⟨hall, hkey⟩, hspans.notes_iff.2 ⟨rfl, hparent, hl, hline⟩⟩

/-- What the expansion of a chunk notes is exact. A notice tells the document and the line of
    a reference to a name that is not defined, in a closed block of a chunk that is the expanded
    one or is reached from it; and there is a notice for each such line. -/
theorem mem_unresolved_iff_of_readAll (documents : List (Path × Text))
    (hpaths : (documents.map (·.1)).Nodup) (s : Store) (hs : readAll documents {} = .ok s)
    (c : Chunk) (hc : c ∈ s.chunks) (config : Config) (x : Expansion)
    (hx : (c.expand s config).outcome = .ok x) (m : Unresolved) :
    m ∈ x.unresolved ↔
      (∀ kind, s.get? ⟨kind, m.name⟩ = none) ∧
        ∃ a, ReflTransGen s.Cites c a ∧ a.name = m.parent ∧
          ∃ text line, (∀ text', (m.location.document, text') ∈ documents ↔ text' = text) ∧
            (0 < m.location.line ∧ (Text.lines text)[m.location.line - 1]? = some line) ∧
            Reference.name? line = some m.name ∧
            ∃ b ∈ blocks (Text.numbered text), b.closed ∧ b.key = a.key ∧
              (m.location.line, line) ∈ b.inside := by
  obtain ⟨u, hu, rfl⟩ := Chunk.unfolds_of_expand hx
  rw [hu.mem_unresolved_iff, ← Store.reports_iff, ← Store.lookup_eq_none_iff_get?]
  constructor
  · rintro ⟨a, hca, hm⟩
    have ha := Store.mem_chunks_of_reflTransGen hca hc
    obtain ⟨hparent, hl, text, hd, b, hb, hclosed, hkey, line, hline, hname⟩ :=
      (notes_iff hs ha).1 hm
    have honly : ∀ text', (m.location.document, text') ∈ documents ↔ text' = text := by
      refine fun text' => ⟨fun hd' => ?_, fun e => e ▸ hd⟩
      exact (Prod.ext_iff.1 (List.inj_on_of_nodup_map hpaths hd' hd rfl)).2
    obtain ⟨last, hspans⟩ := exists_spans hb hclosed
    have hnumber := Text.mem_numbered_iff.1 (hspans.mem_of_mem_inside hline)
    exact ⟨hl, a, hca, hparent.symm, text, line, honly, hnumber, hname, b, hb, hclosed, hkey, hline⟩
  · rintro ⟨hl, a, hca, hparent, text, line, honly, -, hname, b, hb, hclosed, hkey, hline⟩
    have ha := Store.mem_chunks_of_reflTransGen hca hc
    exact ⟨a, hca, (notes_iff hs ha).2 ⟨hparent.symm, hl, text, (honly text).2 rfl, b, hb, hclosed,
      hkey, line, hline, hname⟩⟩

/-- The fragment of a document, which refers to a name that is not defined. -/
def detail : Text := "@<a@> = c\nx\n@\n@<a@> =+ c\n  @<b@>;\n@\n".toList

/-- The document after another one, in which a file chunk refers to the fragment. -/
def outlined : List (Path × Text) :=
  [(⟨['d']⟩, "@(f@) = c\n@shebang #!x\n@<a@>\n@\n".toList), (⟨['e']⟩, detail)]

/-- The fragment. -/
def detailChunk : Chunk where
  name := .ofText ['a']
  language := ['c']
  role := .fragment
  occurrences :=
    [⟨⟨⟨['e']⟩, 1⟩, [(2, ['x'])]⟩, ⟨⟨⟨['e']⟩, 4⟩, [(5, "  @<b@>;".toList)]⟩]

/-- The file chunk. -/
def outlineChunk : Chunk where
  name := .ofText ['f']
  language := ['c']
  role := .file (some "#!x".toList)
  occurrences := [⟨⟨⟨['d']⟩, 1⟩, [(3, "@<a@>".toList)]⟩]

/-- The store of the two documents. -/
def outlinedStore : Store := ⟨[detailChunk], [outlineChunk]⟩

/-- The notice that the expansion of the file chunk gives. -/
def detailNotice : Unresolved := ⟨.ofText ['b'], .ofText ['a'], ⟨⟨['e']⟩, 5⟩⟩

theorem mem_unresolved_of_outlined :
    readAll outlined {} = .ok outlinedStore ∧
      ∃ x, (outlineChunk.expand outlinedStore {}).outcome = .ok x ∧ detailNotice ∈ x.unresolved ∧
        ∃ line, (Text.lines detail)[4]? = some line ∧
          Reference.name? line = some (.ofText ['b']) := by
  have hs : readAll outlined {} = .ok outlinedStore := by decide
  have hdetail : Unfolding.Unfolds outlinedStore
      ⟨[outlineChunk.key, detailChunk.key], [detailChunk.key, outlineChunk.key]⟩
      detailChunk.steps _ :=
    .begins (.plain (by decide) (.ends (.begins
      (.missing (r := ⟨[' ', ' '], .ofText ['b'], [';']⟩) (by decide) rfl (.ends .done)))))
  have houtline : Unfolding.Unfolds outlinedStore (.start outlineChunk.key) outlineChunk.steps _ :=
    .begins (.inserted (r := ⟨[], .ofText ['a'], []⟩) (by decide) rfl rfl hdetail (.ends .done))
  have hx : (outlineChunk.expand outlinedStore {}).outcome = .ok _ :=
    Chunk.expand_of_unfolds houtline
  refine ⟨hs, _, hx, List.mem_cons_self, ?_⟩
  obtain ⟨-, a, -, -, text, line, honly, ⟨-, hline⟩, hname, -⟩ :=
    (mem_unresolved_iff_of_readAll outlined (by decide) _ hs outlineChunk (by decide) {} _ hx
      detailNotice).1 List.mem_cons_self
  obtain rfl : detail = text := (honly detail).1 (by decide)
  exact ⟨line, hline, hname⟩

end Document

end Tangle
