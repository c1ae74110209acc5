import Tangle.Proofs.Annotations
import Mathlib.Data.List.Permutation

/-!
# Output character by character

The lines of an expansion come about as characters at the end of an output (`Output.write`): a
line is pushed with its line feed, and the text of a chunk is split into lines again where it is
moved. To put a text at the end of the last line, the last character is taken away from the
output and pushed again behind the text. Nothing looks at the character that is taken away.

What is done on the way is recorded, also if there is no expansion in the end
(`Output.Moment`). The output always ends with a line feed, if it is not empty
(`Output.Terminated`); and when a character is taken away, the code that the text follows has
just been pushed, and was not empty (`Output.sound_insert`). So the character is the line feed
behind the last line of that code.

The characters are those of the lines (`Output.outcome_write`).
-/

namespace Tangle

open Text

namespace Output

/-! ## Lines as characters -/

/-- The output with one more line, at an indentation. -/
def pushLine (indent out line : Text) : Text := out ++ indent ++ line ++ ['\n']

/-- The output with more lines, at an indentation. -/
def pushLines (indent out : Text) (code : List Text) : Text := code.foldl (pushLine indent) out

/-- The output is empty, or a line feed ends it. -/
def Terminated (out : Text) : Prop := out = [] ∨ out.getLast? = some '\n'

theorem terminated_concat (out : Text) : Terminated (out ++ ['\n']) := .inr List.getLast?_concat

theorem pushLines_eq (indent out : Text) (code : List Text) :
    pushLines indent out code = out ++ unlines (code.map (indent ++ ·)) := by
  induction code generalizing out with
  | nil => exact (List.append_nil out).symm
  | cons line code ih =>
    calc pushLines indent out (line :: code)
      _ = pushLine indent out line ++ unlines (code.map (indent ++ ·)) := ih _
      _ = out ++ unlines ((line :: code).map (indent ++ ·)) := by simp [pushLine, unlines]

theorem pushLines_concat (indent out : Text) (code : List Text) (last : Text) :
    pushLines indent out (code ++ [last]) = pushLine indent (pushLines indent out code) last := by
  rw [pushLines, List.foldl_concat, pushLines]

theorem Terminated.pushLines {out : Text} (h : Terminated out) (indent : Text)
    (code : List Text) : Terminated (pushLines indent out code) := by
  rcases List.eq_nil_or_concat' code with rfl | ⟨code, last, rfl⟩
  · exact h
  · rw [pushLines_concat]
    exact terminated_concat _

/-! ## Moments -/

/-- What is done while chunks are written. -/
inductive Moment
  /-- A chunk is written to its end. -/
  | finished (text : Text)
  /-- The last character of the output is taken away, in order to put a text behind the code of a
      chunk: the output before that code, the indentation, the code, and the output. -/
  | taken (before indent code out : Text)
deriving DecidableEq

/-- A text or an error, with all that was done on the way. -/
structure Record where
  /-- What was done, in order. -/
  moments : List Moment := []
  /-- The text, or why there is none. -/
  outcome : Except Error Text

/-- What is done first, then, if it gives a text, what is done with it. -/
def Record.andThen (w : Record) (f : Text → Record) : Record :=
  match w.outcome with
  | .error e => ⟨w.moments, .error e⟩
  | .ok text => ⟨w.moments ++ (f text).moments, (f text).outcome⟩

/-- Writes code in the place of a reference. -/
def insert (config : Config) (r : Reference) (code out : Text) : Record :=
  let moved := pushLines r.indent out (lines code)
  if !r.hasTrailing then { outcome := .ok moved }
  else if config.anchored || code.isEmpty then
    { outcome := .ok (pushLine r.indent moved r.trailing) }
  else ⟨[.taken out r.indent code moved], .ok (moved.dropLast ++ r.trailing ++ ['\n'])⟩

/-- Writes code in the place of a reference, and the anchor behind it. -/
def insertAnchored (config : Config) (c : Chunk) (r : Reference) (resume : Location)
    (code out : Text) : Record :=
  (insert config r code out).andThen fun out =>
    { outcome := .ok (pushLines [] out
        (Unfolding.anchor config r.indent c resume config.markers.continueAnchor)) }

/-- Writes steps of a chunk at the end of an output, given the chunks that are being written. -/
def write (s : Store) (config : Config) (t : Trail) (c : Chunk) (out : Text) (steps : List Step) :
    Record :=
  match steps with
  | [] => ⟨[.finished out], .ok out⟩
  | .begins location :: rest =>
    write s config t c
      (pushLines [] out (Unfolding.anchor config [] c location Markers.openAnchor)) rest
  | .ends location :: rest =>
    write s config t c
      (pushLines [] out (Unfolding.anchor config [] c location config.markers.endAnchor)) rest
  | .line _ resume text :: rest =>
    match Reference.parse? text with
    | none => write s config t c (pushLine [] out text) rest
    | some r =>
      match hc : s.lookup r.name with
      | none => (insertAnchored config c r resume [] out).andThen fun out =>
          write s config t c out rest
      | some child =>
        match ht : t.enter child.key with
        | .error e => { outcome := .error e }
        | .ok t' =>
          have : s.unseen t' < s.unseen t := Store.unseen_lt (Store.mem_chunks_of_lookup hc) ht
          (write s config t' child [] child.steps).andThen fun code =>
            (insertAnchored config c r resume code out).andThen fun out =>
              write s config t c out rest
termination_by (s.unseen t, steps.length)

end Output

/-- Writes a chunk. -/
def Chunk.write (c : Chunk) (s : Store) (config : Config) : Output.Record :=
  Output.write s config (.start c.key) c [] c.steps

namespace Output

variable {s : Store} {config : Config} {t : Trail} {c : Chunk} {r : Reference}
  {out code text : Text} {steps : List Step} {done : List Moment} {w : Record} {f : Text → Record}

theorem Record.outcome_andThen_eq_bind (w : Record) (f : Text → Record) :
    (w.andThen f).outcome = w.outcome.bind fun text => (f text).outcome := by
  rw [andThen]
  split <;> rename_i h <;> rw [h] <;> rfl

theorem Record.outcome_andThen (h : w.outcome = .ok text) :
    (w.andThen f).outcome = (f text).outcome := by
  rw [outcome_andThen_eq_bind, h]
  rfl

theorem Record.outcome_andThen_eq_ok :
    (w.andThen f).outcome = .ok text ↔ ∃ a, w.outcome = .ok a ∧ (f a).outcome = .ok text := by
  rw [andThen]
  split <;> simp_all

theorem Record.moments_andThen (h : w.outcome = .ok text) :
    (w.andThen f).moments = w.moments ++ (f text).moments := by
  rw [andThen, h]

/-! ## What is taken away -/

/-- The moment is as it should be, among others: what is finished is terminated; and what is taken
    away is the line feed behind the last line of code that is finished, all lines of which were
    pushed onto a terminated output. -/
def Moment.Sound (done : List Moment) : Moment → Prop
  | finished text => Terminated text
  | taken before indent code out =>
    finished code ∈ done ∧ Terminated before ∧ ∃ above last,
      lines code = above ++ [last] ∧ out = pushLine indent (pushLines indent before above) last

theorem Moment.Sound.append {m : Moment} (h : m.Sound done) (more : List Moment) :
    m.Sound (done ++ more) := by
  cases m with
  | finished text => exact h
  | taken before indent code out => exact ⟨List.mem_append_left more h.1, h.2⟩

/-- All moments are as they should be, given those before, and so is the text if there is one. -/
structure Record.Sound (done : List Moment) (w : Record) : Prop where
  /-- The moments. -/
  moments : ∀ m ∈ w.moments, m.Sound (done ++ w.moments)
  /-- The text. -/
  outcome : ∀ text, w.outcome = .ok text → Terminated text

theorem Record.Sound.ok (h : Terminated out) : Record.Sound done { outcome := .ok out } where
  moments _ h := absurd h List.not_mem_nil
  outcome := by
    rintro _ ⟨⟩
    exact h

theorem Record.Sound.error (e : Error) : Record.Sound done { outcome := .error e } where
  moments _ h := absurd h List.not_mem_nil
  outcome _ h := by cases h

theorem Record.Sound.andThen (h : w.Sound done)
    (hf : ∀ text, w.outcome = .ok text → (f text).Sound (done ++ w.moments)) :
    (w.andThen f).Sound done := by
  cases hw : w.outcome with
  | error e =>
    rw [Record.andThen, hw]
    exact ⟨h.moments, fun _ h => by cases h⟩
  | ok text =>
    have hnext := hf text hw
    refine ⟨?_, fun text' h => hnext.outcome text' (Record.outcome_andThen hw ▸ h)⟩
    rw [Record.moments_andThen hw, ← List.append_assoc]
    exact List.forall_mem_append.2 ⟨fun m hm => (h.moments m hm).append _, hnext.moments⟩

/-- A character is taken away only if code was pushed. -/
theorem sound_insert (h : Terminated out) (hcode : code ≠ [] → .finished code ∈ done) :
    (insert config r code out).Sound done := by
  rw [insert]
  split
  · exact .ok (h.pushLines _ _)
  · split
    · exact .ok (terminated_concat _)
    · rename_i hglued
      have hne : code ≠ [] := fun e => hglued (by simp [e])
      -- A text that is not empty has a last line.
      obtain ⟨above, last, hlines⟩ :=
        (List.eq_nil_or_concat' (lines code)).resolve_left (mt (lines_eq_nil_iff code).1 hne)
      constructor
      · refine List.forall_mem_singleton.2
          ⟨List.mem_append_left _ (hcode hne), h, above, last, hlines, ?_⟩
        rw [hlines, pushLines_concat]
      · rintro _ ⟨⟩
        exact terminated_concat _

theorem sound_insertAnchored {resume : Location} (h : Terminated out)
    (hcode : code ≠ [] → .finished code ∈ done) :
    (insertAnchored config c r resume code out).Sound done := by
  have hinsert : (insert config r code out).Sound done := sound_insert h hcode
  exact hinsert.andThen fun out hout => Record.Sound.ok ((hinsert.outcome out hout).pushLines _ _)

/-- A chunk that is written is finished then. -/
theorem finished_mem_of_write (h : (write s config t c out steps).outcome = .ok text) :
    .finished text ∈ (write s config t c out steps).moments := by
  fun_induction write s config t c out steps with
  | case1 t c out =>
    cases h
    exact List.mem_singleton_self _
  | case2 t c out location rest ih | case3 t c out location rest ih => exact ih h
  | case4 t c out location resume text rest hp ih => exact ih h
  | case5 t c out location resume text rest r hp hl ih =>
    obtain ⟨out', hout, h⟩ := Record.outcome_andThen_eq_ok.1 h
    rw [Record.moments_andThen hout]
    exact List.mem_append_right _ (ih out' h)
  | case6 => cases h
  | case7 t c out location resume text rest r hp child hl t' ht _ _ ihRest =>
    obtain ⟨code, hcode, h⟩ := Record.outcome_andThen_eq_ok.1 h
    obtain ⟨out', hout, h⟩ := Record.outcome_andThen_eq_ok.1 h
    rw [Record.moments_andThen hcode, Record.moments_andThen hout]
    exact List.mem_append_right _ (List.mem_append_right _ (ihRest out' h))

/-- Whatever is written, all moments are as they should be. -/
theorem sound_write (done : List Moment) (h : Terminated out) :
    (write s config t c out steps).Sound done := by
  fun_induction write s config t c out steps generalizing done with
  | case1 t c out =>
    exact ⟨List.forall_mem_singleton.2 h, by rintro _ ⟨⟩; exact h⟩
  | case2 t c out location rest ih | case3 t c out location rest ih =>
    exact ih done (h.pushLines _ _)
  | case4 t c out location resume text rest hp ih => exact ih done (terminated_concat _)
  | case5 t c out location resume text rest r hp hl ih =>
    have hinsert : (insertAnchored config c r resume [] out).Sound done :=
      sound_insertAnchored h fun h => absurd rfl h
    exact hinsert.andThen fun out hout => ih out _ (hinsert.outcome out hout)
  | case6 => exact .error _
  | case7 t c out location resume text rest r hp child hl t' ht _ ihInside ihRest =>
    refine (ihInside done (.inl rfl)).andThen fun code hcode => ?_
    have hinsert : (insertAnchored config c r resume code out).Sound
        (done ++ (write s config t' child [] child.steps).moments) :=
      sound_insertAnchored h fun _ => List.mem_append_right done (finished_mem_of_write hcode)
    exact hinsert.andThen fun out hout => ihRest out _ (hinsert.outcome out hout)

/-! ## What is written -/

theorem outcome_insert (config : Config) (r : Reference) (code : List Text) (out : Text) :
    (insert config r (unlines code) out).outcome =
      .ok (out ++ unlines (Unfolding.replaced config r code)) := by
  have hmoved : pushLines r.indent out (lines (unlines code)) =
      out ++ unlines (Unfolding.indented r.indent code) := by
    rw [pushLines_eq, lines_unlines, Unfolding.indented]
  have hempty : (unlines code).isEmpty = code.isEmpty := by cases code <;> simp [unlines]
  rw [insert, Unfolding.replaced, hmoved, hempty]
  split
  · rfl
  · split
    · simp [pushLine, unlines_append, unlines]
    · rename_i hglued
      have hcode : code ≠ [] := fun e => hglued (by simp [e])
      obtain ⟨above, last, hblock⟩ :=
        (List.eq_nil_or_concat' _).resolve_left (Unfolding.indented_ne_nil r.indent hcode)
      rw [hblock]
      simp [Unfolding.followed, unlines_append, unlines]

theorem outcome_insertAnchored (config : Config) (c : Chunk) (r : Reference) (resume : Location)
    (code : List Text) (out : Text) :
    (insertAnchored config c r resume (unlines code) out).outcome =
      .ok (out ++ unlines (Unfolding.replaced config r code ++
        Unfolding.anchor config r.indent c resume config.markers.continueAnchor)) := by
  rw [insertAnchored, Record.outcome_andThen (outcome_insert config r code out), pushLines_eq,
    unlines_append]
  simp

/-- What is written are the lines of the unfolding, unless it comes to an error. -/
theorem outcome_write (s : Store) (config : Config) (t : Trail) (c : Chunk) (out : Text)
    (steps : List Step) :
    (write s config t c out steps).outcome =
      (Unfolding.build s t steps).outcome.map fun u => out ++ unlines (u.render config c) := by
  fun_induction write s config t c out steps with
  | case1 t c out =>
    rw [Unfolding.build]
    simp [Except.map, Unfolding.render, unlines]
  | case2 t c out location rest ih | case3 t c out location rest ih =>
    rw [ih, Unfolding.build, Report.bind_eq, Report.outcome_andThen_eq_bind]
    cases (Unfolding.build s t rest).outcome with
    | error e => rfl
    | ok u => simp [Except.map, Except.bind, Unfolding.render, unlines_append, pushLines_eq]
  | case4 t c out location resume text rest hp ih =>
    rw [ih, Unfolding.build]
    simp only [hp]
    rw [Report.bind_eq, Report.outcome_andThen_eq_bind]
    cases (Unfolding.build s t rest).outcome with
    | error e => rfl
    | ok u => simp [Except.map, Except.bind, Unfolding.render, unlines, pushLine]
  | case5 t c out location resume text rest r hp hl ih =>
    have hinsert : (insertAnchored config c r resume [] out).outcome = _ :=
      outcome_insertAnchored config c r resume [] out
    rw [Record.outcome_andThen hinsert, ih, Unfolding.build_missing hp hl,
      Report.outcome_andThen_eq_bind]
    simp only [Report.note, Report.outcome_andThen_eq_bind]
    cases (Unfolding.build s t rest).outcome with
    | error e => rfl
    | ok u => simp [Except.map, Except.bind, Unfolding.render, unlines_append]
  | case6 t c out location resume text rest r hp child hl e ht =>
    rw [Unfolding.build_circle hp hl ht]
    rfl
  | case7 t c out location resume text rest r hp child hl t' ht _ ihInside ihRest =>
    rw [Record.outcome_andThen_eq_bind, ihInside, Unfolding.build_inserted hp hl ht]
    simp only [Report.outcome_andThen_eq_bind]
    cases (Unfolding.build s t' child.steps).outcome with
    | error e => rfl
    | ok inside =>
      have hinsert := outcome_insertAnchored config c r resume (inside.render config child) out
      simp only [Except.map, Except.bind, List.nil_append, Record.outcome_andThen hinsert, ihRest]
      cases (Unfolding.build s t rest).outcome with
      | error e => rfl
      | ok u => simp [Unfolding.render, unlines_append]

end Output

namespace Chunk

open Output

variable {s : Store} {c : Chunk} {config : Config}

theorem outcome_write (c : Chunk) (s : Store) (config : Config) :
    (c.write s config).outcome = (c.expand s config).outcome.map (·.text) := by
  rw [write, Output.outcome_write, expand, unfolding_eq, Report.bind_eq,
    Report.outcome_andThen_eq_bind]
  cases (Unfolding.build s (.start c.key) c.steps).outcome with
  | error e => rfl
  | ok u => rfl

/-- To write a chunk gives the text of its expansion. Every text that is finished on the way, of
    the chunk or of one that is inserted, is empty or ends with a line feed; and whenever a
    character is taken away from the output, that is so of the output before the reference, and
    the text of the chunk that was inserted, which is finished, has a last line. The output is
    then what it was before the reference, with the lines of that text, and the character is the
    line feed behind the last one. All of this holds also if the chunk cannot be expanded in the
    end. -/
theorem taken_is_line_feed (s : Store) (c : Chunk) (config : Config) :
    let w := c.write s config
    w.outcome = (c.expand s config).outcome.map (·.text) ∧
    (∀ text, .finished text ∈ w.moments → text = [] ∨ text.getLast? = some '\n') ∧
    ∀ before indent code out, .taken before indent code out ∈ w.moments →
      .finished code ∈ w.moments ∧ (before = [] ∨ before.getLast? = some '\n') ∧
      ∃ above last, lines code = above ++ [last] ∧
        out = before ++ unlines (above.map (indent ++ ·)) ++ (indent ++ last) ++ ['\n'] := by
  intro w
  have hsound : w.Sound [] := sound_write [] (.inl rfl)
  refine ⟨outcome_write c s config, fun text h => hsound.moments _ h,
    fun before indent code out h => ?_⟩
  obtain ⟨hfinished, hbefore, above, last, hlines, hout⟩ := hsound.moments _ h
  refine ⟨hfinished, hbefore, above, last, hlines, ?_⟩
  rw [hout, pushLine, pushLines_eq, List.append_assoc _ indent]

/-- A fragment with a line, and a reference to another one, with a text behind it. -/
def glued : Store := { fragments := [ofLine "a" "\t@<b@>;", ofLine "b" "x\r"] }

theorem taken_of_glued :
    let a := ofLine "a" "\t@<b@>;"
    let w := a.write glued { annotation := .naked }
    .taken [] ['\t'] "x\n".toList "\tx\n".toList ∈ w.moments ∧
      .finished "x\n".toList ∈ w.moments ∧
      (a.expand glued { annotation := .naked }).outcome.map (·.text) = .ok "\tx;\n".toList ∧
      ∃ above last, lines "x\n".toList = above ++ [last] ∧
        "\tx\n".toList = unlines (above.map (['\t'] ++ ·)) ++ (['\t'] ++ last) ++ ['\n'] := by
  have hwrite : (ofLine "a" "\t@<b@>;").write glued { annotation := .naked } =
      ⟨[.finished "x\n".toList, .taken [] ['\t'] "x\n".toList "\tx\n".toList,
        .finished "\tx;\n".toList], .ok "\tx;\n".toList⟩ := by cbv
  intro a w
  have htaken : .taken [] ['\t'] "x\n".toList "\tx\n".toList ∈ w.moments := by
    simp [w, a, hwrite]
  obtain ⟨houtcome, -, hall⟩ := taken_is_line_feed glued a { annotation := .naked }
  obtain ⟨hfinished, -, hlast⟩ := hall _ _ _ _ htaken
  exact ⟨htaken, hfinished, houtcome.symm.trans (congrArg Record.outcome hwrite), hlast⟩

end Chunk

end Tangle
