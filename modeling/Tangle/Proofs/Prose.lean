import Tangle.Proofs.Renumbering

/-!
# Prose

Prose is what stands outside the blocks of a document. A *revision* (`Revision`) keeps some
lines of a document and replaces others. It is one of prose only (`Revision.OnlyProse`) if
lines are replaced where a reader is outside a block, and none of them opens one, neither
of those that go nor of those that come; closing lines, shebangs and references are prose
there like anything else.

Reading the document before such a revision and after it is the same but for the numbers
of lines (`Document.readLines_revised`): a line that is kept has as many lines before it as
are left or put there (`Revision.Renumbers`). The two readings go hand in hand along the
revision, with the draft of the block at hand, if there is one, and with stores that differ
by these numbers (`Store.Renumbered`).
-/

namespace Tangle

/-! ## Revisions -/

/-- What becomes of lines of a document. -/
inductive Edit
  /-- The line stays. -/
  | keep (line : Text)
  /-- The first lines go, and the others come in their place. -/
  | replace (old new : List Text)
deriving DecidableEq, Inhabited

/-- The lines before the edit. -/
def Edit.before : Edit → List Text
  | keep line => [line]
  | replace old _ => old

/-- The lines after the edit. -/
def Edit.after : Edit → List Text
  | keep line => [line]
  | replace _ new => new

/-- What becomes of a document, from its first line to its last. -/
abbrev Revision := List Edit

namespace Revision

/-- The document before the revision. -/
def before (r : Revision) : List Text := r.flatMap Edit.before

/-- The document after the revision. -/
def after (r : Revision) : List Text := r.flatMap Edit.after

theorem before_cons (edit : Edit) (r : Revision) :
    before (edit :: r) = edit.before ++ before r := rfl

theorem after_cons (edit : Edit) (r : Revision) : after (edit :: r) = edit.after ++ after r := rfl

theorem before_concat (r : Revision) (edit : Edit) :
    before (r ++ [edit]) = before r ++ edit.before := by
  simp [before]

theorem after_concat (r : Revision) (edit : Edit) :
    after (r ++ [edit]) = after r ++ edit.after := by
  simp [after]

/-- The line opens a block, if it stands outside of one. -/
def opens (line : Text) : Bool :=
  match Directive.classify line with
  | .opening _ => true
  | .closing | .shebang _ | .text => false

/-- A reader that was inside a block, or not, is inside one after the line. -/
def insideAfter (inside : Bool) (line : Text) : Bool :=
  match Directive.classify line with
  | .opening _ => true
  | .closing => false
  | .shebang _ | .text => inside

/-- Lines are replaced only where a reader is outside a block, and none of them opens one. The
    reader may start inside a block. -/
def OnlyProse (inside : Bool) : Revision → Prop
  | [] => True
  | .keep line :: more => OnlyProse (insideAfter inside line) more
  | .replace old new :: more =>
    inside = false ∧ (∀ line ∈ old ++ new, opens line = false) ∧ OnlyProse inside more

/-- Whether a revision is one of prose only can be found out line by line. -/
instance decidableOnlyProse : (inside : Bool) → (r : Revision) → Decidable (OnlyProse inside r)
  | _, [] => .isTrue trivial
  | inside, .keep line :: more => decidableOnlyProse (insideAfter inside line) more
  | inside, .replace old new :: more =>
    have := decidableOnlyProse inside more
    inferInstanceAs (Decidable (inside = false ∧ (∀ line ∈ old ++ new, opens line = false) ∧
      OnlyProse inside more))

/-- The function gives the number of each line that is kept, from the one that it had. The two
    differ by the lines that come before it, less those that go. -/
def Renumbers (r : Revision) (f : Nat → Nat) : Prop :=
  ∀ (front : Revision) (line : Text) (back : Revision), r = front ++ .keep line :: back →
    f (front.before.length + 1) = front.after.length + 1

/-- Lines are replaced one for one. -/
def LineForLine (r : Revision) : Prop := ∀ edit ∈ r, edit.before.length = edit.after.length

/-- The number of lines before a line that is kept, given that before the revision. -/
def shifted : Revision → Nat → Nat
  | [], k => k
  | .keep _ :: _, 0 => 0
  | .keep _ :: more, k + 1 => shifted more k + 1
  | .replace old new :: more, k => new.length + shifted more (k - old.length)

theorem shifted_append (front : Revision) (line : Text) (back : Revision) :
    shifted (front ++ .keep line :: back) front.before.length = front.after.length := by
  induction front with
  | nil => rfl
  | cons edit front ih =>
    cases edit with
    | keep line' => exact congrArg (· + 1) ih
    | replace old new =>
      rw [before_cons, after_cons, List.length_append, List.length_append, List.cons_append,
        shifted, Edit.before, Edit.after, Nat.add_sub_cancel_left, ih]

/-- Every line that is kept has a number after the revision. -/
theorem exists_renumbers (r : Revision) : ∃ f, r.Renumbers f := by
  refine ⟨fun n => r.shifted (n - 1) + 1, fun front line back hr => ?_⟩
  simp only [hr, Nat.add_sub_cancel, shifted_append]

/-- Lines that are replaced one for one keep their numbers. -/
theorem LineForLine.renumbers {r : Revision} (h : r.LineForLine) : r.Renumbers id := by
  rintro front line back rfl
  have hlengths : front.map (fun edit => edit.before.length) =
      front.map fun edit => edit.after.length :=
    List.map_congr_left fun edit hedit => h edit (List.mem_append_left _ hedit)
  rw [before, after, List.length_flatMap, List.length_flatMap, hlengths]
  rfl

end Revision

/-! ## Reading -/

/-- Lines with their numbers, after the first `n` lines of a document. -/
def Text.numberedAfter (n : Nat) (lines : List Text) : List (Nat × Text) :=
  (lines.zipIdx (n + 1)).map fun (line, number) => (number, line)

theorem Text.numberedAfter_append (n : Nat) (lines more : List Text) :
    numberedAfter n (lines ++ more) =
      numberedAfter n lines ++ numberedAfter (n + lines.length) more := by
  simp [numberedAfter, List.zipIdx_append, Nat.add_right_comm]

theorem Text.numberedAfter_cons (n : Nat) (line : Text) (more : List Text) :
    numberedAfter n (line :: more) = (n + 1, line) :: numberedAfter (n + 1) more := rfl

namespace Document

variable {f : Nat → Nat} {document : Path} {s t t' : Store}

/-- The two readings come to the same count, or to the same error but for the number of its
    line, and to stores that differ by the numbers of the lines that were read. -/
structure Reading.Renumbered (f : Nat → Nat) (s : Store) (x x' : Reading) : Prop where
  outcome : x'.outcome = x.outcome.mapError (·.renumbered f)
  store : Store.Renumbered f s x.store x'.store

/-- Outside a block, lines that open none are not looked at. -/
theorem readLines_prose {lines : List Text} (h : ∀ line ∈ lines, Revision.opens line = false)
    (n : Nat) (rest : List (Nat × Text)) (s : Store) :
    readLines document (Text.numberedAfter n lines ++ rest) none s =
      readLines document rest none s := by
  induction lines generalizing n with
  | nil => rfl
  | cons line lines ih =>
    obtain ⟨hline, hlines⟩ := List.forall_mem_cons.1 h
    rw [Text.numberedAfter_cons, List.cons_append, readLines]
    rw [Revision.opens] at hline
    split
    · simp_all
    · exact ih hlines (n + 1)

theorem Reading.Renumbered.closed {x x' : Reading} (h : Reading.Renumbered f s x x')
    (log log' : List Event) :
    Reading.Renumbered f s ⟨x.store, log ++ x.log, x.outcome.map (· + 1)⟩
      ⟨x'.store, log' ++ x'.log, x'.outcome.map (· + 1)⟩ := by
  refine ⟨?_, h.store⟩
  rw [h.outcome]
  cases x.outcome <;> rfl

/-- A line that is kept is read in the same way under either number, if this goes for the
    lines after it. -/
theorem readLines_keep {n n' : Nat} (hn : f n = n') {line : Text}
    {rest rest' : List (Nat × Text)} {d : Option Draft} (h : Store.Renumbered f s t t')
    (hrest : ∀ (e : Option Draft) (u u' : Store), e.isSome = Revision.insideAfter d.isSome line →
      Store.Renumbered f s u u' →
      Reading.Renumbered f s (readLines document rest e u)
        (readLines document rest' (e.map (·.renumbered f)) u')) :
    Reading.Renumbered f s (readLines document ((n, line) :: rest) d t)
      (readLines document ((n', line) :: rest') (d.map (·.renumbered f)) t') := by
  subst hn
  rw [Revision.insideAfter] at hrest
  cases d with
  | none =>
    rw [Option.map_none, readLines, readLines]
    cases hc : Directive.classify line with
    | opening o =>
      rw [hc] at hrest
      exact hrest (some ⟨o, ⟨⟨document, n⟩, []⟩, none⟩) t t' rfl h
    | closing | shebang | text =>
      rw [hc] at hrest
      exact hrest none t t' rfl h
  | some d =>
    rw [Option.map_some, readLines, readLines]
    cases hc : Directive.classify line with
    | closing =>
      rw [hc] at hrest
      obtain ⟨hok, herror⟩ := d.close_renumbered h
      rcases hclose : d.close t with ⟨log, e | u⟩
      · rcases hclose' : (d.renumbered f).close t' with ⟨log', o⟩
        obtain rfl : o = .error (e.renumbered f) := by
          have := herror e (by rw [hclose])
          rwa [hclose'] at this
        exact ⟨rfl, h⟩
      · obtain ⟨u', hu', hren⟩ := hok u (by rw [hclose])
        rcases hclose' : (d.renumbered f).close t' with ⟨log', o⟩
        obtain rfl : o = .ok u' := by rwa [hclose'] at hu'
        exact (hrest none u u' rfl hren).closed log log'
    | shebang given =>
      rw [hc] at hrest
      have hkind : (d.renumbered f).opening.kind = d.opening.kind := rfl
      simp only [hkind]
      cases d.opening.kind with
      | fragment => exact ⟨rfl, h⟩
      | file => exact hrest (some _) t t' rfl h
    | opening o | text =>
      rw [hc] at hrest
      have hpush : (d.renumbered f).occurrence.push (f n) line =
          (d.occurrence.push n line).renumbered f := by
        simp [Draft.renumbered, Occurrence.push, Occurrence.renumbered]
      simp only [hpush]
      exact hrest (some { d with occurrence := d.occurrence.push n line }) t t' rfl h

/-- Reading a document before a revision of its prose and after it comes to the same, but for
    the numbers of lines. -/
theorem readLines_revised (document : Path) {r : Revision} (hf : r.Renumbers f)
    (front rest : Revision) (hr : r = front ++ rest) (d : Option Draft)
    (hp : Revision.OnlyProse d.isSome rest) (h : Store.Renumbered f s t t') :
    Reading.Renumbered f s
      (readLines document (Text.numberedAfter front.before.length rest.before) d t)
      (readLines document (Text.numberedAfter front.after.length rest.after)
        (d.map (·.renumbered f)) t') := by
  induction rest generalizing front d t t' with
  | nil => cases d <;> exact ⟨rfl, h⟩
  | cons edit rest ih =>
    have hfront : r = (front ++ [edit]) ++ rest := by rw [hr, List.append_cons]
    -- The lines after the edit are numbered after those of the revision up to the edit.
    rw [Revision.before_cons, Revision.after_cons, Text.numberedAfter_append,
      Text.numberedAfter_append, ← List.length_append, ← List.length_append,
      ← Revision.before_concat, ← Revision.after_concat]
    cases edit with
    | replace old new =>
      obtain ⟨hd, hlines, hp⟩ := hp
      obtain rfl : d = none := by simpa using hd
      obtain ⟨hold, hnew⟩ := List.forall_mem_append.1 hlines
      rw [Option.map_none, Edit.before, Edit.after, readLines_prose hold, readLines_prose hnew]
      exact ih _ hfront none hp h
    | keep line =>
      refine readLines_keep (hf front line rest hr) h fun e u u' he hu => ih _ hfront e ?_ hu
      rw [he]
      exact hp

/-- Let the lines of a document, whatever ends them, be revised where a reader is outside a
    block, and let none of those that go or come open one. Then, on any store, the document
    is read to the same count, or to the same error, and the chunks get the same additions,
    but for the numbers of the lines that are new: these are shifted by what comes and goes
    before them. So the texts of all chunks without anchors are the same; and if lines are
    replaced one for one, nothing changes at all. -/
theorem read_revised {r : Revision} (hp : r.OnlyProse false) {text text' : Text}
    (htext : Text.lines text = r.before) (htext' : Text.lines text' = r.after)
    (document : Path) (s : Store) :
    let x := read document text s
    let x' := read document text' s
    ((∃ f, r.Renumbers f) ∧ ∀ f, r.Renumbers f →
      x'.outcome = x.outcome.mapError (·.renumbered f) ∧
        Store.Renumbered f s x.store x'.store) ∧
      (∀ config : Config, config.anchored = false → ∀ kind,
        ((x'.store.registry kind).map fun c => (c.expand x'.store config).outcome.map (·.text)) =
          (x.store.registry kind).map fun c => (c.expand x.store config).outcome.map (·.text)) ∧
      (r.LineForLine → x'.outcome = x.outcome ∧ x'.store = x.store ∧
        ∀ (config : Config) (c : Chunk), c.expand x'.store config = c.expand x.store config) := by
  intro x x'
  have hread (f : Nat → Nat) (hf : r.Renumbers f) : Reading.Renumbered f s x x' := by
    have hlines := readLines_revised document hf [] r rfl none hp (.refl s)
    rw [← htext, ← htext'] at hlines
    exact hlines
  obtain ⟨f, hf⟩ := r.exists_renumbers
  refine ⟨⟨⟨f, hf⟩, fun f hf => ⟨(hread f hf).outcome, (hread f hf).store⟩⟩,
    fun config hn kind => (hread f hf).store.map_text hn kind, fun h => ?_⟩
  have hid := hread id h.renumbers
  have hstore : x'.store = x.store := hid.store.eq_of_id
  refine ⟨?_, hstore, fun config c => by rw [hstore]⟩
  rw [hid.outcome]
  cases x.outcome with
  | ok n => rfl
  | error e => exact congrArg Except.error e.renumbered_id

/-- A document that defines a chunk twice, with a heading. -/
def twice : Text := "Title\n@<a@> = c\nx\n@\n@<a@> = c\ny\n@\n".toList

/-- The same with other prose: directives that have no effect outside a block. -/
def twiceRevised : Text :=
  "@\n@shebang #!x\n@<a@> = c\nx\n@\n@<a@>\n@<a@> = c\ny\n@\n".toList

/-- How the one comes from the other: the heading is replaced, and a line is put in. -/
def twiceRevision : Revision :=
  [.replace ["Title".toList] [['@'], "@shebang #!x".toList],
    .keep "@<a@> = c".toList, .keep ['x'], .keep ['@'], .replace [] ["@<a@>".toList],
    .keep "@<a@> = c".toList, .keep ['y'], .keep ['@']]

theorem read_twice_revised :
    (read ⟨['d']⟩ twice {}).outcome =
        .error (.alreadyDefined .fragment (.ofText ['a']) ⟨⟨['d']⟩, 5⟩) ∧
      (read ⟨['d']⟩ twiceRevised {}).outcome =
        .error (.alreadyDefined .fragment (.ofText ['a']) ⟨⟨['d']⟩, 7⟩) := by
  have hp : twiceRevision.OnlyProse false := by decide
  have htext : Text.lines twice = twiceRevision.before := by decide
  have htext' : Text.lines twiceRevised = twiceRevision.after := by decide
  obtain ⟨⟨⟨f, hf⟩, hread⟩, -⟩ := read_revised hp htext htext' ⟨['d']⟩ {}
  have hnumber : f 5 = 7 := hf (twiceRevision.take 5) _ _ rfl
  have houtcome : (read ⟨['d']⟩ twice {}).outcome =
      .error (.alreadyDefined .fragment (.ofText ['a']) ⟨⟨['d']⟩, 5⟩) := by decide
  refine ⟨houtcome, ?_⟩
  rw [(hread f hf).1, houtcome, ← hnumber]
  rfl

end Document

end Tangle
