import Tangle.Proofs.Registries
import Tangle.References.Links
import Mathlib.Data.List.Infix

/-!
# Operations on a store

All that is ever done to a store: a document is read, a chunk is defined or extended,
a shebang is set, and the references are linked. An operation that fails leaves the
store as it was, but for a document, of which the blocks before the error stay.

Each operation is a sequence of *changes* (`Store.Changes`): something is registered,
or a link is recorded. So what a single change keeps, every run of operations keeps,
whatever fails on the way (`Store.run_changes`):

* the store is *well-formed*: its registries are consistent, and every chunk has an
  occurrence (`Store.WellFormed.changes`);
* the store *grows*: names stay where they are, with new ones after them, and chunks
  keep their occurrences, with new ones after them (`Store.Grows.of_changes`).

Of an operation on a single chunk it is also said when it fails
(`Operation.FailsIff`), and that it changes no other chunk (`Operation.ChangesOnly`).
-/

namespace Tangle

open Relation

/-- What is done to a store. -/
inductive Operation
  /-- A document is read. -/
  | read (document : Path) (text : Text)
  /-- A new chunk is defined by its first occurrence. -/
  | define (name : Name) (language : Text) (role : Role) (first : Occurrence)
  /-- A chunk is extended. -/
  | extend (k : Key) (o : Occurrence)
  /-- A chunk gets another shebang. -/
  | setShebang (k : Key) (text : Text)
  /-- The references are linked. -/
  | link
deriving DecidableEq, Inhabited

namespace Store

/-- What comes of an attempt: the new store, or the old one with the error. -/
def attempt (s : Store) : Except Error Store → Store × Except Error Unit
  | .ok s' => (s', .ok ())
  | .error e => (s, .error e)

end Store

/-- The store after an operation, and whether it succeeded. -/
def Operation.run (s : Store) : Operation → Store × Except Error Unit
  | read document text =>
    let r := Document.read document text s
    (r.store, r.outcome.map fun _ => ())
  | define name language role first => s.attempt (s.define (.new name language role first))
  | extend k o => s.attempt (s.extend k o)
  | setShebang k text => (s.setShebang k text, .ok ())
  | link => s.attempt (s.link.outcome.map (·.1))

namespace Store

/-- The store after operations, whether they succeed or fail. -/
def run (ops : List Operation) (s : Store) : Store := ops.foldl (fun s op => (op.run s).1) s

/-! ## Changes -/

/-- What is done to a store at once: something is registered, or a link is
    recorded. -/
inductive Changes : Store → Store → Prop
  | registers {s s' : Store} : Registers (fun _ => True) s s' → Changes s s'
  | addLink (s : Store) (link : Key × Key) : Changes s (s.addLink link)

variable {s s' : Store} {k : Key} {c : Chunk}

/-- Linking records all links there are. -/
theorem link_eq_ok_iff {n : Nat} :
    s.link.outcome = .ok (s', n) ↔
      ∃ links, s.links = .ok links ∧ s' = links.foldl addLink s ∧ n = links.length := by
  rw [link, Report.bind_eq, Report.outcome_andThen_eq_ok]
  simp [Report.ofExcept, Report.note, Report.andThen_ok, eq_comm]

theorem foldl_addLink_changes (links : List (Key × Key)) (s : Store) :
    ReflTransGen Changes s (links.foldl addLink s) := by
  induction links generalizing s with
  | nil => exact .refl
  | cons link links ih => exact .head (.addLink s link) (ih _)

theorem attempt_of_ok {R : Store → Store → Prop} {r : Except Error Store}
    (h : ∀ s', r = .ok s' → ReflTransGen R s s') : ReflTransGen R s (s.attempt r).1 := by
  cases r with
  | error e => exact .refl
  | ok s' => exact h s' rfl

/-- An operation other than linking registers something. -/
theorem run_operation_registers {op : Operation} (h : op ≠ .link) (s : Store) :
    ReflTransGen (Registers fun _ => True) s (op.run s).1 := by
  cases op with
  | read document text =>
    exact ReflTransGen.mono (fun _ _ h => h.mono fun _ _ => trivial) _ _
      (Document.read_registers document text s)
  | define name language role first =>
    exact attempt_of_ok fun s' h => .single (.define name language role trivial h)
  | extend k o => exact attempt_of_ok fun s' h => .single (.extend k trivial h)
  | setShebang k text => exact .single (.setShebang s k text)
  | link => exact absurd rfl h

/-- An operation is a sequence of changes. -/
theorem run_operation_changes (op : Operation) (s : Store) :
    ReflTransGen Changes s (op.run s).1 := by
  by_cases h : op = .link
  · subst h
    refine attempt_of_ok fun s' h => ?_
    cases hl : s.link.outcome with
    | error e => simp [hl, Except.map] at h
    | ok linked =>
      obtain rfl : linked.1 = s' := by simpa [hl, Except.map] using h
      obtain ⟨links, -, hlinked, -⟩ := link_eq_ok_iff.1 hl
      rw [hlinked]
      exact foldl_addLink_changes links s
  · exact ReflTransGen.mono (fun _ _ => .registers) _ _ (run_operation_registers h s)

/-- Operations without linking register something. -/
theorem run_registers {ops : List Operation} (h : .link ∉ ops) (s : Store) :
    ReflTransGen (Registers fun _ => True) s (run ops s) := by
  induction ops generalizing s with
  | nil => exact .refl
  | cons op ops ih =>
    obtain ⟨hop, hops⟩ := not_or.1 (mt List.mem_cons.2 h)
    exact (run_operation_registers (Ne.symm hop) s).trans (ih hops _)

/-- Operations are a sequence of changes. -/
theorem run_changes (ops : List Operation) (s : Store) : ReflTransGen Changes s (run ops s) := by
  induction ops generalizing s with
  | nil => exact .refl
  | cons op ops ih => exact (run_operation_changes op s).trans (ih _)

end Store

/-! ## Changes of a chunk -/

/-- The keys with one more, unless it is among them. -/
def Key.adjoin (keys : List Key) (k : Key) : List Key := if k ∈ keys then keys else keys ++ [k]

theorem Chunk.addChild_eq (c : Chunk) (k : Key) :
    c.addChild k = { c with children := Key.adjoin c.children k } := by
  rw [addChild, Key.adjoin]
  split <;> rfl

theorem Chunk.addParent_eq (c : Chunk) (k : Key) :
    c.addParent k = { c with parents := Key.adjoin c.parents k } := by
  rw [addParent, Key.adjoin]
  split <;> rfl

theorem Chunk.occurrences_setShebang (c : Chunk) (text : Text) :
    (c.setShebang text).occurrences = c.occurrences := by
  rw [setShebang]
  split <;> rfl

namespace Store

variable {s s' : Store} {k : Key} {c : Chunk}

/-! ## Well-formed stores -/

/-- The registries are consistent, and every chunk has an occurrence. -/
structure WellFormed (s : Store) : Prop extends s.Consistent where
  /-- Every chunk has an occurrence. -/
  occurrences : ∀ c ∈ s.chunks, c.occurrences ≠ []

theorem WellFormed.empty : ({} : Store).WellFormed where
  toConsistent := .empty
  occurrences _ h := absurd h List.not_mem_nil

theorem WellFormed.update (h : s.WellFormed) {f : Chunk → Chunk}
    (hname : ∀ c, (f c).name = c.name) (hkind : ∀ c, (f c).kind = c.kind)
    (hf : ∀ c, c.occurrences ≠ [] → (f c).occurrences ≠ []) : (s.update k f).WellFormed where
  toConsistent := h.toConsistent.update hname hkind
  occurrences := forall_chunks_update hf h.occurrences

/-- A change keeps the store well-formed. -/
theorem WellFormed.changes (h : s.WellFormed) (hc : Changes s s') : s'.WellFormed := by
  cases hc with
  | registers hr =>
    refine ⟨h.toConsistent.registers hr, hr.forall_chunks ?_ ?_ ?_ h.occurrences⟩
    · exact fun _ _ _ _ _ => List.cons_ne_nil _ _
    · exact fun _ _ _ _ => List.concat_ne_nil _ _
    · exact fun c text hne => (c.occurrences_setShebang text).symm ▸ hne
  | addLink link =>
    have hchild := h.update (k := link.1) (f := (·.addChild link.2))
      (fun c => by rw [Chunk.addChild_eq]) (fun c => by rw [Chunk.addChild_eq]; rfl)
      (fun c hne => by rwa [Chunk.addChild_eq])
    exact hchild.update (fun c => by rw [Chunk.addParent_eq])
      (fun c => by rw [Chunk.addParent_eq]; rfl) (fun c hne => by rwa [Chunk.addParent_eq])

/-! ## Growing stores -/

/-- The names of a registry, in order. -/
def names (s : Store) (kind : Kind) : List Name := (s.registry kind).map (·.name)

/-- The store has become another one by growing. -/
structure Grows (s s' : Store) : Prop where
  /-- The names stay in order, with new ones after them. -/
  names : ∀ kind, s.names kind <+: s'.names kind
  /-- The chunks keep their occurrences, with new ones after them. -/
  occurrences : ∀ k c, s.get? k = some c →
    ∃ c', s'.get? k = some c' ∧ c.occurrences <+: c'.occurrences

namespace Grows

theorem refl (s : Store) : s.Grows s where
  names _ := List.prefix_rfl
  occurrences _ c h := ⟨c, h, List.prefix_rfl⟩

theorem trans {s'' : Store} (h : s.Grows s') (h' : s'.Grows s'') : s.Grows s'' where
  names kind := (h.names kind).trans (h'.names kind)
  occurrences k c hc := by
    obtain ⟨c', hc', hle⟩ := h.occurrences k c hc
    obtain ⟨c'', hc'', hle'⟩ := h'.occurrences k c' hc'
    exact ⟨c'', hc'', hle.trans hle'⟩

theorem update (s : Store) (k : Key) {f : Chunk → Chunk} (hname : ∀ c, (f c).name = c.name)
    (hf : ∀ c, c.occurrences <+: (f c).occurrences) : s.Grows (s.update k f) where
  names kind := by
    rw [Store.names, Store.names, map_name_update hname]
  occurrences l c hc := by
    rw [get?_update hname, hc]
    split
    · exact ⟨f c, rfl, hf c⟩
    · exact ⟨c, rfl, List.prefix_rfl⟩

end Grows

/-- A definition adds a chunk under its key, and changes nothing else. -/
theorem get?_of_define (h : s.define c = .ok s') (l : Key) :
    s'.get? l = if l = c.key then some c else s.get? l := by
  obtain ⟨hfree, rfl⟩ := define_eq_ok_iff.1 h
  by_cases hkind : l.kind = c.kind
  · have hfind : (s.setRegistry c.kind (s.registry c.kind ++ [c])).get? l =
        (s.get? l).or (if c.name = l.name then some c else none) := by
      rw [get?, get?, hkind, registry_setRegistry, List.find?_append]
      congr 1
      by_cases e : c.name = l.name <;> simp [e]
    rw [hfind]
    by_cases e : l = c.key
    · subst e
      rw [hfree]
      simp [Chunk.key]
    · have hname : c.name ≠ l.name := fun e' => e (Key.eq_iff.2 ⟨hkind, e'.symm⟩)
      simp [e, hname]
  · have hne : l ≠ c.key := fun e => hkind (by rw [e]; rfl)
    rw [get?, registry_setRegistry_of_ne s _ hkind, if_neg hne]
    rfl

theorem Grows.define (h : s.define c = .ok s') : s.Grows s' where
  names kind := by
    obtain ⟨-, rfl⟩ := define_eq_ok_iff.1 h
    rw [Store.names, Store.names]
    by_cases e : kind = c.kind
    · subst e
      rw [registry_setRegistry, List.map_append]
      exact List.prefix_append _ _
    · rw [registry_setRegistry_of_ne s _ e]
  occurrences l a ha := by
    have hne : l ≠ c.key := by
      rintro rfl
      rw [(define_eq_ok_iff.1 h).1] at ha
      cases ha
    rw [get?_of_define h, if_neg hne]
    exact ⟨a, ha, List.prefix_rfl⟩

/-- A store grows with every change. -/
theorem Grows.of_changes (h : Changes s s') : s.Grows s' := by
  cases h with
  | registers hr =>
    cases hr with
    | define name language role _ hd => exact .define hd
    | extend k _ he =>
      obtain ⟨-, rfl⟩ := extend_eq_ok_iff.1 he
      exact .update s k (fun _ => rfl) fun c => List.prefix_append _ _
    | setShebang k text =>
      refine .update s k (Chunk.name_setShebang · text) fun c => ?_
      rw [Chunk.occurrences_setShebang]
  | addLink link =>
    have hchild : s.Grows (s.update link.1 (·.addChild link.2)) :=
      .update s link.1 (fun c => by rw [Chunk.addChild_eq]) fun c => by rw [Chunk.addChild_eq]
    exact hchild.trans <| .update _ link.2 (fun c => by rw [Chunk.addParent_eq])
      fun c => by rw [Chunk.addParent_eq]

end Store

/-! ## Operations on one chunk -/

namespace Operation

/-- The operation fails exactly under a condition, with an error and without any
    change. -/
structure FailsIff (op : Operation) (s : Store) (e : Error) (condition : Prop) : Prop where
  /-- It fails with that error under the condition, and only then. -/
  fails : (op.run s).2 = .error e ↔ condition
  /-- It succeeds otherwise. -/
  succeeds : (op.run s).2 = .ok () ↔ ¬condition
  /-- If it fails, the store stays as it is. -/
  unchanged : condition → (op.run s).1 = s

/-- The operation changes nothing but the chunk of a key. -/
structure ChangesOnly (op : Operation) (s : Store) (k : Key) (after : Option Chunk) : Prop where
  /-- What is found under the key afterwards. -/
  here : (op.run s).1.get? k = after
  /-- Nothing changes under other keys. -/
  elsewhere : ∀ l ≠ k, (op.run s).1.get? l = s.get? l
  /-- The other registry stays as it is. -/
  registry : ∀ kind ≠ k.kind, (op.run s).1.registry kind = s.registry kind

variable {s : Store} {k : Key}

theorem ChangesOnly.of_update {op : Operation} {f : Chunk → Chunk}
    (hrun : (op.run s).1 = s.update k f) (hname : ∀ c, (f c).name = c.name) :
    op.ChangesOnly s k ((s.get? k).map f) := by
  constructor
  · rw [hrun, Store.get?_update hname, if_pos rfl]
  · intro l hl
    rw [hrun, Store.get?_update hname, if_neg hl]
  · intro kind hk
    rw [hrun, Store.registry_update_of_ne f hk]

section Define

variable (s : Store) (name : Name) (language : Text) (role : Role) (first : Occurrence)

/-- A definition fails exactly if there is a chunk of that kind and name. -/
theorem define_failsIff :
    (define name language role first).FailsIff s
      (.alreadyDefined role.kind name first.location) (name ∈ s.names role.kind) := by
  have hkey : (Chunk.new name language role first).key = ⟨role.kind, name⟩ := rfl
  have hiff : s.get? ⟨role.kind, name⟩ = none ↔ name ∉ s.names role.kind :=
    Store.get?_eq_none_iff
  cases hc : s.get? ⟨role.kind, name⟩ with
  | none =>
    have hrun : (define name language role first).run s =
        (s.setRegistry role.kind (s.registry role.kind ++ [.new name language role first]),
          .ok ()) := by
      rw [run, Store.define, hkey, hc]
      rfl
    have hfree := hiff.1 hc
    exact ⟨by simp [hrun, hfree], by simp [hrun, hfree], fun h => absurd h hfree⟩
  | some c =>
    have hrun : (define name language role first).run s =
        (s, .error (.alreadyDefined role.kind name first.location)) := by
      rw [run, Store.define, hkey, hc]
      rfl
    have htaken : name ∈ s.names role.kind := by
      by_contra hfree
      cases (hiff.2 hfree).symm.trans hc
    exact ⟨by simp [hrun, htaken], by simp [hrun, htaken], fun _ => by rw [hrun]⟩

/-- A definition that succeeds adds its chunk, and changes nothing else. -/
theorem define_changesOnly (h : name ∉ s.names role.kind) :
    (define name language role first).ChangesOnly s ⟨role.kind, name⟩
      (some (.new name language role first)) := by
  have hdefine := Store.define_eq_ok_iff (s := s) (c := .new name language role first) |>.2
    ⟨Store.get?_eq_none_iff.2 h, rfl⟩
  have hrun : ((define name language role first).run s).1 =
      s.setRegistry role.kind (s.registry role.kind ++ [.new name language role first]) := by
    rw [run, hdefine]
    rfl
  constructor
  · rw [hrun]
    exact (Store.get?_of_define hdefine _).trans (if_pos rfl)
  · intro l hl
    rw [hrun]
    exact (Store.get?_of_define hdefine _).trans (if_neg hl)
  · intro kind hk
    rw [hrun, Store.registry_setRegistry_of_ne s _ hk]

end Define

/-- An extension fails exactly if there is no chunk of that kind and name. -/
theorem extend_failsIff (s : Store) (k : Key) (o : Occurrence) :
    (extend k o).FailsIff s (.notDefined k.kind k.name o.location)
      (k.name ∉ s.names k.kind) := by
  have hiff : s.get? k = none ↔ k.name ∉ s.names k.kind := Store.get?_eq_none_iff
  cases hc : s.get? k with
  | none =>
    have hrun : (extend k o).run s = (s, .error (.notDefined k.kind k.name o.location)) := by
      rw [run, Store.extend, hc]
      rfl
    have hfree := hiff.1 hc
    exact ⟨by simp [hrun, hfree], by simp [hrun, hfree], fun _ => by rw [hrun]⟩
  | some c =>
    have hrun : (extend k o).run s = (s.update k (·.append o), .ok ()) := by
      rw [run, Store.extend, hc]
      rfl
    have htaken : k.name ∈ s.names k.kind := by
      by_contra hfree
      cases (hiff.2 hfree).symm.trans hc
    exact ⟨by simp [hrun, htaken], by simp [hrun, htaken], fun h => absurd htaken h⟩

/-- An extension that succeeds adds the occurrence, and changes nothing else. -/
theorem extend_changesOnly (s : Store) (k : Key) (o : Occurrence)
    (h : k.name ∈ s.names k.kind) :
    (extend k o).ChangesOnly s k ((s.get? k).map (·.append o)) := by
  have hsome : s.get? k ≠ none := fun hn => Store.get?_eq_none_iff.1 hn h
  refine .of_update ?_ fun _ => rfl
  rw [run, Store.extend_eq_ok_iff.2 ⟨hsome, rfl⟩]
  rfl

theorem setShebang_changesOnly (s : Store) (k : Key) (text : Text) :
    (setShebang k text).ChangesOnly s k ((s.get? k).map (·.setShebang text)) :=
  .of_update rfl (Chunk.name_setShebang · text)

end Operation

/-! ## Runs -/

namespace Store

theorem WellFormed.run (ops : List Operation) {s : Store} (h : s.WellFormed) :
    (Store.run ops s).WellFormed := by
  have hrun := run_changes ops s
  generalize Store.run ops s = s' at hrun ⊢
  induction hrun with
  | refl => exact h
  | tail _ hc ih => exact ih.changes hc

theorem Grows.run (ops : List Operation) (s : Store) : s.Grows (Store.run ops s) := by
  have hrun := run_changes ops s
  generalize Store.run ops s = s' at hrun ⊢
  induction hrun with
  | refl => exact .refl s
  | tail _ hc ih => exact ih.trans (.of_changes hc)

/-- After any operations, from the empty store on, every chunk is found under its own
    name and kind, has an occurrence, and a shebang only if it is a file; no name is
    there twice. Whatever is done next, the store grows. A definition, an extension and
    a shebang concern one chunk only, and the first two fail exactly if its name is
    taken, or free. -/
theorem run_keeps_registries (ops : List Operation) :
    let s := run ops {}
    (∀ kind, (s.names kind).Nodup ∧ ∀ c ∈ s.registry kind,
      c.kind = kind ∧ s.get? ⟨kind, c.name⟩ = some c ∧ Text.trim c.name.text = c.name.text ∧
        c.occurrences ≠ [] ∧ (kind = .fragment → c.shebang = none)) ∧
    (∀ more, s.Grows (run more s)) ∧
    (∀ name language role first,
      (Operation.define name language role first).FailsIff s
        (.alreadyDefined role.kind name first.location) (name ∈ s.names role.kind) ∧
      (name ∉ s.names role.kind →
        (Operation.define name language role first).ChangesOnly s ⟨role.kind, name⟩
          (some (.new name language role first)))) ∧
    (∀ k o, (Operation.extend k o).FailsIff s (.notDefined k.kind k.name o.location)
        (k.name ∉ s.names k.kind) ∧
      (k.name ∈ s.names k.kind →
        (Operation.extend k o).ChangesOnly s k ((s.get? k).map (·.append o)))) ∧
    ∀ k text, ((Operation.setShebang k text).run s).2 = .ok () ∧
      (Operation.setShebang k text).ChangesOnly s k ((s.get? k).map (·.setShebang text)) := by
  intro s
  have hs : s.WellFormed := WellFormed.empty.run ops
  refine ⟨fun kind => ⟨hs.nodup kind, fun c hc => ?_⟩, fun more => .run more s, ?_, ?_, ?_⟩
  · have hkind := hs.kind kind c hc
    have hmem : c ∈ s.chunks := mem_chunks_iff.2 ⟨kind, hc⟩
    refine ⟨hkind, ?_, c.name.trimmed, hs.occurrences c hmem, fun hf => ?_⟩
    · rw [← hkind]
      exact hs.get?_key hmem
    · -- A chunk of that kind has no place for a shebang.
      rw [hf] at hkind
      rw [Chunk.shebang]
      split
      · rfl
      · rename_i shebang hrole
        simp [Chunk.kind, Role.kind, hrole] at hkind
  · intro name language role first
    exact ⟨Operation.define_failsIff s name language role first,
      Operation.define_changesOnly s name language role first⟩
  · exact fun k o => ⟨Operation.extend_failsIff s k o, Operation.extend_changesOnly s k o⟩
  · exact fun k text => ⟨rfl, Operation.setShebang_changesOnly s k text⟩

/-- A file that refers to a fragment, an extension that fails, and links. -/
def trial : List Operation :=
  [.read ⟨['d']⟩ "@(f@) = c\n@<a@>\n@\n@<a@> = c\nx\n@\n".toList,
    .extend ⟨.fragment, .ofText ['f']⟩ ⟨⟨⟨['d']⟩, 9⟩, []⟩, .link]

theorem run_trial_keeps_registries :
    let s := run trial {}
    let o : Occurrence := ⟨⟨⟨['e']⟩, 1⟩, []⟩
    let f : Name := .ofText ['f']
    f ∈ s.names .file ∧ ((Operation.define f ['c'] (.file none) o).run s).1 = s ∧
      f ∉ s.names .fragment ∧
      ((Operation.define f ['c'] .fragment o).run s).1.registry .file = s.registry .file ∧
      ((Operation.extend ⟨.file, f⟩ o).run s).1.registry .fragment = s.registry .fragment := by
  intro s o f
  obtain ⟨-, -, hdefine, hextend, -⟩ := run_keeps_registries trial
  have htaken : f ∈ s.names .file := by decide
  have hfree : f ∉ s.names .fragment := by decide
  exact ⟨htaken, (hdefine f ['c'] (.file none) o).1.unchanged htaken, hfree,
    ((hdefine f ['c'] .fragment o).2 hfree).registry .file (by decide),
    ((hextend ⟨.file, f⟩ o).2 htaken).registry .fragment (by decide)⟩

end Store

end Tangle
