import Tangle.Proofs.Circles
import Tangle.Session

/-!
# Outputs of a session

What tangling a session comes to, told file chunk by file chunk. A file chunk
*gives* an output if its name is a path inside the output directory and its
references go in no circle: at that path, the text of its expansion, after its
shebang (`Session.Gives`). Otherwise it *offends*, with the error of its name or
else of its expansion (`Session.Offends`).

* If all file chunks give an output, tangling plans one entry for each of them, in
  order: an action, or a path whose file has its content already
  (`Session.tangleFiles_of_gives`).
* Otherwise tangling stops at the first file chunk that offends, with its error
  (`Session.tangleFiles_of_offends`).

Together these say exactly when tangling succeeds, and what it comes to
(`Session.tangle_outcome`). What a hook may do besides, and what is wrong with the
disk, is left out here: the hooks are those of every run, and a file that is looked
at is read or is not there.
-/

namespace Tangle

/-! ## Sessions that are loaded -/

/-- A session into which documents were read, one after the other, with or without
    errors. -/
inductive Session.Loaded : Session → Prop
  | new : Loaded {}
  | parse {s : Session} (path : Path) (text : Text) : Loaded s → Loaded (s.parse path text).1

namespace Session

theorem Loaded.consistent {s : Session} (h : s.Loaded) : s.store.Consistent := by
  induction h with
  | new => exact .empty
  | parse path text _ ih => exact ih.read path text

/-- Reading documents of a library is reading them one after the other. -/
theorem Loaded.readAll {library : Library} {paths : List Path} {s s' : Session} (h : s.Loaded)
    (hs : (Session.readAll library paths s).outcome = .ok s') : s'.Loaded := by
  induction paths generalizing s with
  | nil =>
    cases hs
    exact h
  | cons path more ih =>
    rw [Session.readAll] at hs
    split at hs
    · cases hs
    · obtain ⟨_, _, hs⟩ := Report.outcome_andThen_eq_ok.1 hs
      exact ih (h.parse path _) hs

theorem Loaded.of_load {w : Workspace} {documents : List Path} {s : Session}
    (h : (Session.load w documents).outcome = .ok s) : s.Loaded := by
  obtain ⟨s', hs', h⟩ := Report.outcome_andThen_eq_ok.1 h
  cases h
  exact Loaded.new.readAll hs'

end Session

/-! ## Shebangs

The shebang of a chunk stands in front of its own output only. What a chunk is
expanded to is the same if no chunk has a shebang. -/

/-- The role without a shebang. -/
def Role.bare : Role → Role
  | fragment => fragment
  | file _ => file none

/-- The chunk without its shebang. -/
def Chunk.bare (c : Chunk) : Chunk := { c with role := c.role.bare }

/-- The store without the shebangs of its chunks. -/
def Store.bare (s : Store) : Store := ⟨s.fragments.map (·.bare), s.files.map (·.bare)⟩

theorem Chunk.key_bare (c : Chunk) : c.bare.key = c.key := by
  obtain ⟨name, language, role, occurrences, parents, children⟩ := c
  cases role <;> rfl

theorem Store.get?_bare (s : Store) (k : Key) : s.bare.get? k = (s.get? k).map (·.bare) := by
  obtain ⟨kind, name⟩ := k
  cases kind <;> exact List.find?_map

theorem Store.lookup_bare (s : Store) (name : Name) :
    s.bare.lookup name = (s.lookup name).map (·.bare) := by
  rw [lookup, lookup, get?_bare, get?_bare, Option.map_or]

namespace Unfolding

/-- The unfolding without the shebangs of the chunks in it. -/
def bare : Unfolding → Unfolding
  | done => done
  | begins location rest => begins location rest.bare
  | ends location rest => ends location rest.bare
  | plain text rest => plain text rest.bare
  | missing r location resume rest => missing r location resume rest.bare
  | inserted r child inside resume rest => inserted r child.bare inside.bare resume rest.bare

theorem render_bare (u : Unfolding) (config : Config) (c : Chunk) :
    u.bare.render config c.bare = u.render config c := by
  induction u generalizing c with
  | done => rfl
  | plain text rest ih => rw [bare, render, render, ih]
  | begins location rest ih | ends location rest ih | missing r location resume rest ih =>
    rw [bare, render, render, ih]
    rfl
  | inserted r child inside resume rest ihInside ihRest =>
    rw [bare, render, render, ihInside, ihRest]
    rfl

theorem unresolved_bare (u : Unfolding) (parent : Name) :
    u.bare.unresolved parent = u.unresolved parent := by
  induction u generalizing parent with
  | done => rfl
  | begins location rest ih | ends location rest ih | plain text rest ih => exact ih parent
  | missing r location resume rest ih => rw [bare, unresolved, unresolved, ih]
  | inserted r child inside resume rest ihInside ihRest =>
    rw [bare, unresolved, unresolved, ihInside, ihRest]
    rfl

theorem Unfolds.bare {s : Store} {t : Trail} {steps : List Step} {u : Unfolding}
    (h : Unfolds s t steps u) : Unfolds s.bare t steps u.bare := by
  induction h with
  | done => exact .done
  | begins _ ih => exact .begins ih
  | ends _ ih => exact .ends ih
  | plain hp _ ih => exact .plain hp ih
  | missing hp hl _ ih => exact .missing hp (by rw [Store.lookup_bare, hl]; rfl) ih
  | inserted hp hl ht _ _ ihInside ihRest =>
    refine .inserted hp (by rw [Store.lookup_bare, hl]; rfl) ?_ ihInside ihRest
    rw [Chunk.key_bare, ht]

end Unfolding

/-- A chunk is expanded to the same without any shebangs. -/
theorem Chunk.expand_bare {c : Chunk} {s : Store} {config : Config} {x : Expansion}
    (h : (c.expand s config).outcome = .ok x) :
    (c.bare.expand s.bare config).outcome = .ok x := by
  obtain ⟨u, hu, rfl⟩ := unfolds_of_expand h
  have hbare := hu.bare
  rw [← c.key_bare] at hbare
  rw [expand_of_unfolds hbare, Unfolding.render_bare, Unfolding.unresolved_bare]
  rfl

/-! ## One file chunk -/

/-- What is written for a file chunk. -/
structure Output where
  /-- The path of the file. -/
  path : Path
  /-- The content of the file. -/
  content : Text
  /-- The references that stand for nothing in it. -/
  unresolved : List Unresolved
deriving DecidableEq, Inhabited

/-- The entry of a plan for an output: the action that writes it, or its path if
    the file is there with its content. -/
def Output.entry (d : Disk) (o : Output) : Action ⊕ Path :=
  match d.read o.path with
  | .ok existing =>
    if existing = o.content then .inr o.path else .inl ⟨.overwrite, o.path, o.content⟩
  | .error _ => .inl ⟨.create, o.path, o.content⟩

/-- The shebang of a chunk as a line, if it has one that is not empty. -/
def Chunk.lead (c : Chunk) : Text :=
  match c.shebang with
  | some text => if text = [] then [] else text ++ ['\n']
  | none => []

/-- The hooks of every run put the shebang in front. -/
theorem Hook.run_defaults (content : Text) (c : Chunk) :
    Hook.run Hook.defaults content c = .ok (c.lead ++ content) := by
  have hamend : Hook.shebang.amend content c = .ok (match c.shebang with
    | some text => if text = [] then none else some ⟨some text, content⟩
    | none => none) := rfl
  rw [Hook.run, Hook.defaults, Hook.amendAll, hamend, Chunk.lead]
  cases c.shebang with
  | none => rfl
  | some text =>
    by_cases h : text = []
    · simp only [h, if_true]
      rfl
    · simp only [h, if_false]
      simp [Hook.amendAll]

theorem Workspace.eq_badTarget {w : Workspace} {name : Name} {e : Error}
    (h : w.target name = .error e) : e = .badTarget name := by
  rw [target] at h
  split at h <;> cases h
  rfl

/-- The plan with one more entry. -/
def Plan.including (p : Plan) : Action ⊕ Path → Plan
  | .inl a => p.add a
  | .inr path => { p with unchanged := p.unchanged ++ [path] }

/-- A file that is read, or is not there, can be planned. -/
theorem Plan.outcome_write {p : Plan} {d : Disk} {o : Output}
    (h : (∃ t, d.read o.path = .ok t) ∨ d.read o.path = .error .notFound) :
    (p.write d o.path o.content).outcome = .ok (p.including (o.entry d)) := by
  rw [write, Output.entry]
  rcases h with ⟨t, ht⟩ | ht
  · rw [ht]
    dsimp only
    split <;> rfl
  · rw [ht]
    rfl

/-- The result of tangling, with one more output. -/
def Tangling.including (d : Disk) (t : Tangling) (o : Output) : Tangling :=
  ⟨t.plan.including (o.entry d), t.unresolved ++ o.unresolved, t.files + 1⟩

namespace Session

variable (s : Session) (w : Workspace)

/-- The output that a file chunk gives. -/
structure Gives (c : Chunk) (o : Output) : Prop where
  /-- It goes to the target of the name of the chunk. -/
  path : w.target c.name = .ok o.path
  /-- It is the expansion of the chunk, after its shebang. -/
  text : ∃ x, (c.expand s.store w.config).outcome = .ok x ∧ o.content = c.lead ++ x.text ∧
    o.unresolved = x.unresolved

/-- The error of a file chunk that gives no output: that of its name comes before
    that of its expansion. -/
inductive Offends (c : Chunk) : Error → Prop
  | name : w.target c.name = .error (.badTarget c.name) → Offends c (.badTarget c.name)
  | circle {path : Path} {names : List Name} : w.target c.name = .ok path →
      (c.expand s.store w.config).outcome = .error (.cycle names) → Offends c (.cycle names)

variable {s w} {c : Chunk} {o : Output} {e : Error}

theorem outcome_render (hw : w.hooks = Hook.defaults) {x : Expansion}
    (hx : (c.expand s.store w.config).outcome = .ok x) :
    (s.render w c).outcome = .ok (c.lead ++ x.text, x.unresolved) := by
  refine Report.outcome_andThen_eq_ok.2 ⟨x, hx, ?_⟩
  rw [hw, Hook.run_defaults]
  rfl

/-- A file chunk gives an output exactly if it has a target and reaches no circle. -/
theorem exists_gives_iff (hs : s.store.Consistent) (hc : c ∈ s.store.chunks) :
    (∃ o, s.Gives w c o) ↔ (∃ path, w.target c.name = .ok path) ∧ ¬s.store.ReachesCircle c.key := by
  constructor
  · rintro ⟨o, hpath, x, hx, -, -⟩
    exact ⟨⟨_, hpath⟩, (Chunk.exists_expand_iff hs hc).1 ⟨x, hx⟩⟩
  · rintro ⟨⟨path, hpath⟩, hno⟩
    obtain ⟨x, hx⟩ := (Chunk.exists_expand_iff hs hc).2 hno
    exact ⟨⟨path, c.lead ++ x.text, x.unresolved⟩, hpath, x, hx, rfl, rfl⟩

/-- A file chunk gives an output or offends. -/
theorem gives_or_offends (hs : s.store.Consistent) (hc : c ∈ s.store.chunks) :
    (∃ o, s.Gives w c o) ∨ ∃ e, s.Offends w c e := by
  cases hpath : w.target c.name with
  | error e =>
    obtain rfl := Workspace.eq_badTarget hpath
    exact .inr ⟨_, .name hpath⟩
  | ok path =>
    cases hx : (c.expand s.store w.config).outcome with
    | ok x => exact .inl ⟨⟨path, c.lead ++ x.text, x.unresolved⟩, hpath, x, hx, rfl, rfl⟩
    | error e =>
      obtain ⟨walk, last, rfl, -⟩ := Chunk.lasso_of_expand hs hc hx
      exact .inr ⟨_, .circle hpath hx⟩

/-- A file chunk that gives an output does not offend. -/
theorem Gives.not_offends (hg : s.Gives w c o) : ¬s.Offends w c e := by
  obtain ⟨hpath, x, hx, -, -⟩ := hg
  rintro (h | ⟨-, h⟩)
  · cases hpath.symm.trans h
  · cases hx.symm.trans h

/-! ## All file chunks -/

/-- The file that is looked at for a chunk can be read, or is not there. -/
def Readable (w : Workspace) (d : Disk) (c : Chunk) : Prop :=
  ∀ path, w.target c.name = .ok path →
    (∃ t, d.read path = .ok t) ∨ d.read path = .error .notFound

variable {d : Disk} {more : List Chunk} {t : Tangling}

/-- A file chunk that gives an output adds it to what is planned. -/
theorem tangleFiles_cons_of_gives (hw : w.hooks = Hook.defaults) (hd : Readable w d c)
    (hg : s.Gives w c o) :
    (s.tangleFiles w d (c :: more) t).outcome =
      (s.tangleFiles w d more (t.including d o)).outcome := by
  obtain ⟨x, hx, hcontent, hunresolved⟩ := hg.text
  have htarget : (Report.ofExcept (w.target c.name)).outcome = .ok o.path := hg.path
  have hrender := outcome_render hw hx
  rw [← hcontent, ← hunresolved] at hrender
  rw [tangleFiles, Report.bind_eq, Report.outcome_andThen_of_ok htarget, Report.bind_eq,
    Report.outcome_andThen_of_ok hrender]
  exact Report.outcome_andThen_of_ok (Plan.outcome_write (hd o.path hg.path)) _

/-- A file chunk that offends is where tangling stops. -/
theorem tangleFiles_cons_of_offends (ho : s.Offends w c e) :
    (s.tangleFiles w d (c :: more) t).outcome = .error e := by
  rw [tangleFiles, Report.bind_eq, Report.outcome_andThen_eq_error]
  cases ho with
  | name h => exact .inl h
  | circle hpath hx =>
    -- Expansion fails, so no hook is run and the disk is not looked at.
    refine .inr ⟨_, hpath, Report.outcome_andThen_eq_error.2 (.inl ?_)⟩
    exact Report.outcome_andThen_eq_error.2 (.inl hx)

/-- Tangling file chunks that all give an output adds the outputs, one by one. -/
theorem tangleFiles_of_gives (hw : w.hooks = Hook.defaults) {files : List Chunk}
    {outputs : List Output} (hg : List.Forall₂ (s.Gives w) files outputs)
    (hd : ∀ c ∈ files, Readable w d c) (t : Tangling) :
    (s.tangleFiles w d files t).outcome = .ok (outputs.foldl (·.including d) t) := by
  induction hg generalizing t with
  | nil => rfl
  | cons hc _ ih =>
    rw [tangleFiles_cons_of_gives hw (hd _ List.mem_cons_self) hc, List.foldl_cons]
    exact ih (fun b hb => hd b (List.mem_cons_of_mem _ hb)) _

/-- Tangling file chunks stops at the first one that offends. -/
theorem tangleFiles_of_offends (hw : w.hooks = Hook.defaults) {before after : List Chunk}
    (hg : ∀ b ∈ before, ∃ o, s.Gives w b o) (ho : s.Offends w c e)
    (hd : ∀ b ∈ before, Readable w d b) (t : Tangling) :
    (s.tangleFiles w d (before ++ c :: after) t).outcome = .error e := by
  induction before generalizing t with
  | nil => exact tangleFiles_cons_of_offends ho
  | cons b before ih =>
    obtain ⟨o, hb⟩ := hg b List.mem_cons_self
    rw [List.cons_append, tangleFiles_cons_of_gives hw (hd b List.mem_cons_self) hb]
    exact ih (fun b hb => hg b (List.mem_cons_of_mem _ hb))
      (fun b hb => hd b (List.mem_cons_of_mem _ hb)) _

/-- Either all file chunks give an output, or there is a first one that offends. -/
theorem forall_gives_or_first_offends (hs : s.store.Consistent) {files : List Chunk}
    (hf : ∀ c ∈ files, c ∈ s.store.chunks) :
    (∀ c ∈ files, ∃ o, s.Gives w c o) ∨
      ∃ before c after e, files = before ++ c :: after ∧ (∀ b ∈ before, ∃ o, s.Gives w b o) ∧
        s.Offends w c e := by
  induction files with
  | nil => exact .inl fun _ h => absurd h List.not_mem_nil
  | cons c files ih =>
    rcases gives_or_offends hs (hf c List.mem_cons_self) with hc | ⟨e, hc⟩
    · rcases ih fun b hb => hf b (List.mem_cons_of_mem _ hb) with
        h | ⟨before, b, after, e, rfl, hbefore, hb⟩
      · exact .inl (List.forall_mem_cons.2 ⟨hc, h⟩)
      · exact .inr ⟨c :: before, b, after, e, rfl, List.forall_mem_cons.2 ⟨hc, hbefore⟩, hb⟩
    · exact .inr ⟨[], c, files, e, rfl, fun _ h => absurd h List.not_mem_nil, hc⟩

/-- The outputs of file chunks that all give one. -/
theorem exists_outputs {files : List Chunk} (h : ∀ c ∈ files, ∃ o, s.Gives w c o) :
    ∃ outputs, List.Forall₂ (s.Gives w) files outputs := by
  induction files with
  | nil => exact ⟨[], .nil⟩
  | cons c files ih =>
    obtain ⟨⟨o, hc⟩, hfiles⟩ := List.forall_mem_cons.1 h
    obtain ⟨outputs, ho⟩ := ih hfiles
    exact ⟨o :: outputs, .cons hc ho⟩

/-- Outputs make up what is planned, each with its entry. -/
theorem foldl_including (d : Disk) (outputs : List Output) (t : Tangling) :
    outputs.foldl (·.including d) t =
      ⟨⟨t.plan.actions ++ outputs.filterMap fun o => (o.entry d).getLeft?,
        t.plan.unchanged ++ outputs.filterMap fun o => (o.entry d).getRight?⟩,
        t.unresolved ++ outputs.flatMap (·.unresolved), t.files + outputs.length⟩ := by
  induction outputs generalizing t with
  | nil => simp
  | cons o outputs ih =>
    rw [List.foldl_cons, ih, Tangling.including]
    cases h : o.entry d <;>
      simp [Plan.including, Plan.add, h, Nat.add_assoc, Nat.add_comm 1]

/-- Every output has its entry among the actions or among the files that are
    unchanged. -/
theorem length_entries (d : Disk) (outputs : List Output) :
    (outputs.filterMap fun o => (o.entry d).getLeft?).length +
      (outputs.filterMap fun o => (o.entry d).getRight?).length = outputs.length := by
  induction outputs with
  | nil => rfl
  | cons o outputs ih =>
    cases h : o.entry d <;> simp [h, ← ih] <;> omega

/-- The count of the references that stand for nothing is noted in the end, which
    changes no outcome. -/
theorem outcome_tangle : (s.tangle w d).outcome = (s.tangleFiles w d s.store.files {}).outcome := by
  rw [tangle]
  cases h : (s.tangleFiles w d s.store.files {}).outcome with
  | error e => exact Report.outcome_andThen_eq_error.2 (.inl h)
  | ok t =>
    -- Whether something is noted or not, the result is `t`.
    refine Report.outcome_andThen_eq_ok.2 ⟨t, h, ?_⟩
    split <;> rfl

/-- Tangling either comes to the outputs of all file chunks, or to the error of the
    first one that offends. -/
theorem tangle_cases (hs : s.store.Consistent) (hw : w.hooks = Hook.defaults)
    (hd : ∀ c ∈ s.store.files, Readable w d c) :
    (∃ outputs, (∀ c ∈ s.store.files, ∃ o, s.Gives w c o) ∧
      List.Forall₂ (s.Gives w) s.store.files outputs ∧
      (s.tangle w d).outcome = .ok (outputs.foldl (·.including d) {})) ∨
    ∃ before c after e, s.store.files = before ++ c :: after ∧
      (∀ b ∈ before, ∃ o, s.Gives w b o) ∧ s.Offends w c e ∧
      (s.tangle w d).outcome = .error e := by
  have hf : ∀ c ∈ s.store.files, c ∈ s.store.chunks := fun c h => List.mem_append_right _ h
  rw [outcome_tangle]
  rcases forall_gives_or_first_offends (w := w) hs hf with
    hall | ⟨before, c, after, e, hfiles, hbefore, ho⟩
  · obtain ⟨outputs, hg⟩ := exists_outputs hall
    exact .inl ⟨outputs, hall, hg, tangleFiles_of_gives hw hg hd {}⟩
  · rw [hfiles] at hd ⊢
    have hd' : ∀ b ∈ before, Readable w d b := fun b hb => hd b (List.mem_append_left _ hb)
    exact .inr ⟨before, c, after, e, rfl, hbefore, ho, tangleFiles_of_offends hw hbefore ho hd' {}⟩

/-- Tangling a loaded session succeeds exactly if every file chunk has a target and
    reaches no circle. Otherwise its error is that of the first file chunk that
    offends. If it succeeds, there is one entry for each file chunk, in order. -/
theorem tangle_outcome (s : Session) (hs : s.Loaded) (w : Workspace)
    (hw : w.hooks = Hook.defaults) (d : Disk) (hd : ∀ c ∈ s.store.files, Readable w d c) :
    ((∃ t, (s.tangle w d).outcome = .ok t) ↔
      ∀ c ∈ s.store.files,
        (∃ path, w.target c.name = .ok path) ∧ ¬s.store.ReachesCircle c.key) ∧
    (∀ e, (s.tangle w d).outcome = .error e →
      ∃ before c after, s.store.files = before ++ c :: after ∧
        (∀ b ∈ before, (∃ path, w.target b.name = .ok path) ∧ ¬s.store.ReachesCircle b.key) ∧
        s.Offends w c e) ∧
    ∀ t, (s.tangle w d).outcome = .ok t →
      t.files = s.store.files.length ∧
      t.plan.actions.length + t.plan.unchanged.length = s.store.files.length ∧
      (∀ c ∈ s.store.files, (c.bare.expand s.store.bare w.config).outcome =
        (c.expand s.store w.config).outcome) ∧
      ∃ outputs, List.Forall₂ (s.Gives w) s.store.files outputs ∧
        t.plan.actions = (outputs.filterMap fun o => (o.entry d).getLeft?) ∧
        t.plan.unchanged = (outputs.filterMap fun o => (o.entry d).getRight?) ∧
        t.unresolved = outputs.flatMap (·.unresolved) := by
  have hgives : ∀ c ∈ s.store.files, (∃ o, s.Gives w c o) ↔
      (∃ path, w.target c.name = .ok path) ∧ ¬s.store.ReachesCircle c.key :=
    fun c h => exists_gives_iff hs.consistent (List.mem_append_right _ h)
  rcases tangle_cases hs.consistent hw hd with
    ⟨outputs, hall, hg, hok⟩ | ⟨before, c, after, e, hfiles, hbefore, ho, herror⟩
  · -- All file chunks give an output.
    rw [hok, foldl_including]
    refine ⟨⟨fun _ c h => (hgives c h).1 (hall c h), fun _ => ⟨_, rfl⟩⟩, fun e he => ?_, ?_⟩
    · cases he
    · rintro _ ⟨⟩
      refine ⟨by simp [hg.length_eq], by simp [length_entries, hg.length_eq], fun c h => ?_,
        outputs, hg, by simp, by simp, by simp⟩
      obtain ⟨o, -, x, hx, -, -⟩ := hall c h
      rw [hx, Chunk.expand_bare hx]
  · -- The file chunk `c` is the first one that offends.
    have hmem : c ∈ s.store.files := by simp [hfiles]
    rw [herror]
    refine ⟨⟨?_, fun h => ?_⟩, ?_, ?_⟩
    · rintro ⟨t, ⟨⟩⟩
    · -- It would give an output, and so not offend.
      obtain ⟨o, hc⟩ := (hgives c hmem).2 (h c hmem)
      exact absurd ho hc.not_offends
    · rintro _ ⟨⟩
      refine ⟨before, c, after, hfiles, fun b hb => ?_, ho⟩
      exact (hgives b (by simp [hfiles, hb])).1 (hbefore b hb)
    · rintro t ⟨⟩

/-- A document with one file chunk, which has a shebang and refers to a chunk that is
    not defined. -/
def memo : Text := "@(f@) = c\n@shebang #!x\n @<a@>;\n@\n".toList

/-- The file chunk of the document. -/
def memoChunk : Chunk where
  name := .ofText ['f']
  language := ['c']
  role := .file (some "#!x".toList)
  occurrences := [⟨⟨⟨['d']⟩, 1⟩, [(3, " @<a@>;".toList)]⟩]

/-- The workspace of the document; the output goes to the root directory. -/
def memoWorkspace : Workspace :=
  .new { annotation := .naked } (Shelf.library ⟨[(⟨['d']⟩, memo)]⟩) ⟨['/']⟩

/-- The session with the document. -/
def memoSession : Session := (parse {} ⟨['d']⟩ memo).1

theorem tangle_memo :
    memoSession.Loaded ∧ memoWorkspace.hooks = Hook.defaults ∧
      (∀ c ∈ memoSession.store.files, Readable memoWorkspace {} c) ∧
      ∃ t, (memoSession.tangle memoWorkspace {}).outcome = .ok t ∧ t.files = 1 ∧
        t.plan.actions.length + t.plan.unchanged.length = 1 := by
  have hload : (load memoWorkspace [⟨['d']⟩]).outcome = .ok memoSession := rfl
  have hs := Loaded.of_load hload
  have hfiles : memoSession.store.files = [memoChunk] := by decide
  have hd : ∀ c ∈ memoSession.store.files, Readable memoWorkspace {} c := by
    rw [hfiles, List.forall_mem_singleton]
    rintro _ ⟨⟩
    exact .inr (by decide)
  have hu : Unfolding.Unfolds memoSession.store (.start memoChunk.key) memoChunk.steps _ :=
    .begins (.missing (r := ⟨[' '], .ofText ['a'], [';']⟩) (by decide) (by decide) (.ends .done))
  have hno : ¬memoSession.store.ReachesCircle memoChunk.key :=
    Chunk.not_reachesCircle_of_expand hs.consistent (by decide)
      (Chunk.expand_of_unfolds hu : (memoChunk.expand _ memoWorkspace.config).outcome = .ok _)
  obtain ⟨hiff, -, hok⟩ := tangle_outcome memoSession hs memoWorkspace rfl {} hd
  obtain ⟨t, ht⟩ := hiff.2 (by rw [hfiles, List.forall_mem_singleton]; exact ⟨⟨_, rfl⟩, hno⟩)
  obtain ⟨hcount, hentries, -⟩ := hok t ht
  rw [hfiles] at hcount hentries
  exact ⟨hs, rfl, hd, t, ht, hcount, hentries⟩

end Session

end Tangle
