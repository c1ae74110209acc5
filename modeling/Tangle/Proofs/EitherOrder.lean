import Tangle.Proofs.Blocks
import Tangle.Proofs.Locality
import Mathlib.Data.List.Basic

/-!
# Documents in either order

Two documents that share no chunk may be read in either order. What the order
decides is only where the new chunks stand in their registries: the stores *agree*
(`Store.Agrees`), i.e., they find the same chunk under every key, and list the same
chunks in some order.

A block looks at the chunk of its key and changes that chunk only
(`Block.get?_register`). Therefore

* blocks of different chunks may be exchanged (`Block.register_exchange`), and a
  block does the same in stores that agree (`Block.register_agrees`);
* step by step, the blocks of one document get past those of the other
  (`Document.registerAll_append_comm`);
* an expansion looks at a store only by the names of references, so it does not see
  the order (`Chunk.expand_congr`).
-/

namespace Tangle

namespace Store

/-- The stores find the same chunks, though they may list them in another order. -/
structure Agrees (s s' : Store) : Prop where
  /-- The registries have the same chunks. -/
  registry : ∀ kind, (s.registry kind).Perm (s'.registry kind)
  /-- The same chunk is found under every key. -/
  get? : ∀ k, s.get? k = s'.get? k

namespace Agrees

variable {s s' s'' : Store}

theorem refl (s : Store) : s.Agrees s := ⟨fun _ => .refl _, fun _ => rfl⟩

theorem trans (h : s.Agrees s') (h' : s'.Agrees s'') : s.Agrees s'' :=
  ⟨fun kind => (h.registry kind).trans (h'.registry kind), fun k => (h.get? k).trans (h'.get? k)⟩

theorem lookup (h : s.Agrees s') (name : Name) : s.lookup name = s'.lookup name := by
  rw [Store.lookup, Store.lookup, h.get?, h.get?]

end Agrees

end Store

/-! ## One block -/

namespace Block

variable (b : Block) (document : Path)

/-- The registry of the chunk, once the block is registered. -/
def enter (chunks : List Chunk) : List Chunk :=
  match b.opening.operator with
  | .define => chunks ++ [b.definition document]
  | .extend => chunks.map fun c => if c.name = b.key.name then b.extension document c else c

/-- The chunk that the block leaves, given the one that was there. -/
def leave (c : Option Chunk) : Option Chunk :=
  match b.opening.operator with
  | .define => some (b.definition document)
  | .extend => c.map (b.extension document)

/-- The block can be registered, given the chunk that is there. -/
def Fits (c : Option Chunk) : Prop :=
  match b.opening.operator with
  | .define => c = none
  | .extend => c ≠ none

variable {b document} {s s' t u : Store}

/-- A block is registered if it fits, and then changes the registry of its chunk. -/
theorem register_eq_ok_iff :
    b.register document s = .ok t ↔
      b.Fits (s.get? b.key) ∧
        t = s.setRegistry b.key.kind (b.enter document (s.registry b.key.kind)) := by
  rw [register, Fits, enter]
  cases b.opening.operator with
  | define => cases s.get? b.key <;> simp [key, eq_comm]
  | extend => cases s.get? b.key <;> simp [Store.update, eq_comm]

/-- A block changes the chunk of its key, and nothing else. -/
theorem get?_register (h : b.register document s = .ok t) (k : Key) :
    t.get? k = if k = b.key then b.leave document (s.get? k) else s.get? k := by
  obtain ⟨hfits, rfl⟩ := register_eq_ok_iff.1 h
  rw [Fits] at hfits
  rw [enter, leave]
  cases ho : b.opening.operator with
  | define =>
    simp only [ho] at hfits ⊢
    have hkey := b.key_definition document
    have hkind : (b.definition document).kind = b.key.kind := congrArg Key.kind hkey
    rw [← hkey] at hfits
    rw [← hkind, ← hkey]
    exact Store.get?_of_define (Store.define_eq_ok_iff.2 ⟨hfits, rfl⟩) k
  | extend =>
    exact Store.get?_update (f := b.extension document) (fun _ => rfl) k

/-- The registries after a block. -/
theorem registry_register (h : b.register document s = .ok t) (kind : Kind) :
    t.registry kind =
      if kind = b.key.kind then b.enter document (s.registry kind) else s.registry kind := by
  obtain ⟨-, rfl⟩ := register_eq_ok_iff.1 h
  split
  · subst kind
    exact Store.registry_setRegistry s _ _
  · exact Store.registry_setRegistry_of_ne s _ ‹_›

theorem enter_perm {l l' : List Chunk} (h : l.Perm l') :
    (b.enter document l).Perm (b.enter document l') := by
  rw [enter, enter]
  split
  · exact h.append_right _
  · exact h.map _

/-- A block does the same in stores that agree. -/
theorem register_agrees (h : s.Agrees s') (hb : b.register document s = .ok t) :
    ∃ t', b.register document s' = .ok t' ∧ t.Agrees t' := by
  have hfits := (register_eq_ok_iff.1 hb).1
  rw [h.get?] at hfits
  obtain ⟨t', ht'⟩ : ∃ t', b.register document s' = .ok t' :=
    ⟨_, register_eq_ok_iff.2 ⟨hfits, rfl⟩⟩
  refine ⟨t', ht', fun kind => ?_, fun k => ?_⟩
  · rw [registry_register hb, registry_register ht']
    split
    · exact enter_perm (h.registry kind)
    · exact h.registry kind
  · rw [get?_register hb, get?_register ht', h.get?]

/-- In a registry, blocks of different names may be exchanged. -/
theorem enter_comm {b' : Block} {document' : Path} (h : b.key.name ≠ b'.key.name)
    (l : List Chunk) :
    (b'.enter document' (b.enter document l)).Perm (b.enter document (b'.enter document' l)) := by
  have hnew (a a' : Block) (d d' : Path) (hne : a.key.name ≠ a'.key.name) :
      (if (a.definition d).name = a'.key.name then a'.extension d' (a.definition d)
        else a.definition d) = a.definition d := if_neg hne
  simp only [enter]
  cases b.opening.operator <;> cases b'.opening.operator
  · -- Both define: the new chunks are listed in the order of the blocks.
    simp only [List.append_assoc]
    exact (List.Perm.swap _ _ []).append_left l
  · simp [hnew b b' document document' h]
  · simp [hnew b' b document' document h.symm]
  · -- Both extend: each changes chunks that the other one leaves as they are.
    rw [List.map_map, List.map_map]
    refine .of_eq (List.map_congr_left fun c _ => ?_)
    have hb : (b.extension document c).name = c.name := rfl
    have hb' : (b'.extension document' c).name = c.name := rfl
    by_cases e : c.name = b.key.name
    · simp [hb, e, h]
    · by_cases e' : c.name = b'.key.name <;> simp [hb', e, e', h.symm]

/-- Blocks of different chunks may be exchanged. -/
theorem register_exchange {b' : Block} {document' : Path} (hkey : b.key ≠ b'.key)
    (hb : b.register document s = .ok t) (hb' : b'.register document' t = .ok u) :
    ∃ t' u', b'.register document' s = .ok t' ∧ b.register document t' = .ok u' ∧
      u.Agrees u' := by
  have hfits' := (register_eq_ok_iff.1 hb').1
  rw [get?_register hb, if_neg hkey.symm] at hfits'
  obtain ⟨t', ht'⟩ : ∃ t', b'.register document' s = .ok t' :=
    ⟨_, register_eq_ok_iff.2 ⟨hfits', rfl⟩⟩
  have hfits : b.Fits (t'.get? b.key) := by
    rw [get?_register ht', if_neg hkey]
    exact (register_eq_ok_iff.1 hb).1
  obtain ⟨u', hu'⟩ : ∃ u', b.register document t' = .ok u' :=
    ⟨_, register_eq_ok_iff.2 ⟨hfits, rfl⟩⟩
  refine ⟨t', u', ht', hu', fun kind => ?_, fun k => ?_⟩
  · rw [registry_register hb', registry_register hb, registry_register hu', registry_register ht']
    by_cases e : kind = b.key.kind
    · by_cases e' : kind = b'.key.kind
      · have hname : b.key.name ≠ b'.key.name := fun h => hkey (Key.eq_iff.2 ⟨e ▸ e', h⟩)
        simpa only [← e, ← e', if_true] using enter_comm hname _
      · simp [e']
    · simp [e]
  · rw [get?_register hb', get?_register hb, get?_register hu', get?_register ht']
    by_cases e : k = b.key
    · have e' : k ≠ b'.key := fun e' => hkey (e ▸ e')
      simp [e, hkey]
    · simp [e]

end Block

/-! ## Blocks of two documents -/

namespace Document

/-- The store once the blocks are registered, each for its document, up to the first
    error. -/
def registerAll : List (Path × Block) → Store → Except Error Store
  | [], s => .ok s
  | x :: more, s => (x.2.register x.1 s).bind (registerAll more)

variable {document : Path} {bs : List Block} {x : Path × Block}
  {xs ys : List (Path × Block)} {s s' t u : Store} {n : Nat}

theorem registerAll_cons_eq_ok_iff :
    registerAll (x :: xs) s = .ok u ↔
      ∃ t, x.2.register x.1 s = .ok t ∧ registerAll xs t = .ok u := by
  rw [registerAll]
  cases x.2.register x.1 s <;> simp [Except.bind]

theorem registerAll_append_eq_ok_iff :
    registerAll (xs ++ ys) s = .ok u ↔
      ∃ t, registerAll xs s = .ok t ∧ registerAll ys t = .ok u := by
  induction xs generalizing s with
  | nil => simp [registerAll]
  | cons x xs ih =>
    simp only [List.cons_append, registerAll_cons_eq_ok_iff, ih]
    constructor
    · rintro ⟨t, ht, v, hv, hu⟩
      exact ⟨v, ⟨t, ht, hv⟩, hu⟩
    · rintro ⟨v, ⟨t, ht, hv⟩, hu⟩
      exact ⟨t, ht, v, hv, hu⟩

/-- Blocks do the same in stores that agree. -/
theorem registerAll_agrees (h : s.Agrees s') (hu : registerAll xs s = .ok u) :
    ∃ u', registerAll xs s' = .ok u' ∧ u.Agrees u' := by
  induction xs generalizing s s' with
  | nil =>
    cases hu
    exact ⟨s', rfl, h⟩
  | cons x xs ih =>
    obtain ⟨t, ht, hu⟩ := registerAll_cons_eq_ok_iff.1 hu
    obtain ⟨t', ht', hagree⟩ := Block.register_agrees h ht
    obtain ⟨u', hu', hagree⟩ := ih hagree hu
    exact ⟨u', registerAll_cons_eq_ok_iff.2 ⟨t', ht', hu'⟩, hagree⟩

/-- A block gets past blocks of other chunks. -/
theorem registerAll_cons_comm (hkey : ∀ y ∈ xs, x.2.key ≠ y.2.key)
    (hu : registerAll (x :: xs) s = .ok u) :
    ∃ u', registerAll (xs ++ [x]) s = .ok u' ∧ u.Agrees u' := by
  induction xs generalizing s u with
  | nil => exact ⟨u, hu, .refl u⟩
  | cons y xs ih =>
    obtain ⟨hy, hkey⟩ := List.forall_mem_cons.1 hkey
    obtain ⟨t, ht, hu⟩ := registerAll_cons_eq_ok_iff.1 hu
    obtain ⟨v, hv, hu⟩ := registerAll_cons_eq_ok_iff.1 hu
    -- The block gets past `y` first, and the other blocks do not see the difference.
    obtain ⟨t', v', ht', hv', hagree⟩ := Block.register_exchange hy ht hv
    obtain ⟨w, hw, huw⟩ := registerAll_agrees hagree hu
    obtain ⟨u', hu', hwu⟩ := ih hkey (registerAll_cons_eq_ok_iff.2 ⟨v', hv', hw⟩)
    exact ⟨u', registerAll_cons_eq_ok_iff.2 ⟨t', ht', hu'⟩, huw.trans hwu⟩

/-- Blocks get past blocks of other chunks. -/
theorem registerAll_append_comm (hkey : ∀ x ∈ xs, ∀ y ∈ ys, x.2.key ≠ y.2.key)
    (hu : registerAll (xs ++ ys) s = .ok u) :
    ∃ u', registerAll (ys ++ xs) s = .ok u' ∧ u.Agrees u' := by
  induction xs generalizing s u with
  | nil => exact ⟨u, by simpa using hu, .refl u⟩
  | cons x xs ih =>
    obtain ⟨hx, hkey⟩ := List.forall_mem_cons.1 hkey
    obtain ⟨t, ht, hu⟩ := registerAll_cons_eq_ok_iff.1 hu
    obtain ⟨v, hv, huv⟩ := ih hkey hu
    obtain ⟨w, hw, hv⟩ := registerAll_append_eq_ok_iff.1 hv
    -- The other blocks of the document are behind already; now the first one follows.
    obtain ⟨w', hw', hagree⟩ :=
      registerAll_cons_comm hx (registerAll_cons_eq_ok_iff.2 ⟨t, ht, hw⟩)
    obtain ⟨u', hu', hvu⟩ := registerAll_agrees hagree hv
    refine ⟨u', ?_, huv.trans hvu⟩
    rw [List.append_cons]
    exact registerAll_append_eq_ok_iff.2 ⟨w', hw', hu'⟩

/-- The blocks of a document that are registered. -/
def closedBlocks (document : Path) (bs : List Block) : List (Path × Block) :=
  (bs.filter (·.closed)).map (document, ·)

/-- Processing blocks to the end is registering those that are closed, if no shebang is
    misplaced. -/
theorem process_eq_ok_iff :
    (process document bs s).outcome = .ok n ∧ (process document bs s).store = t ↔
      (∀ b ∈ bs, b.misplaced? = none) ∧ registerAll (closedBlocks document bs) s = .ok t ∧
        n = bs.countP (·.closed) := by
  induction bs generalizing s n with
  | nil => simp [process, closedBlocks, registerAll, eq_comm, and_comm]
  | cons b bs ih =>
    rw [process]
    cases hm : b.misplaced? with
    | some number => simp [hm]
    | none =>
      cases hc : b.closed with
      | false => simpa [hm, hc, closedBlocks] using ih
      | true =>
        have hblocks : closedBlocks document (b :: bs) =
            (document, b) :: closedBlocks document bs := by simp [closedBlocks, hc]
        rw [hblocks, registerAll_cons_eq_ok_iff, List.forall_mem_cons, List.countP_cons_of_pos hc]
        cases hr : b.register document s with
        | error e => simp
        | ok s' =>
          simp only [if_true]
          constructor
          · rintro ⟨hn, ht⟩
            cases ho : (process document bs s').outcome with
            | error e => simp [ho, Except.map] at hn
            | ok m =>
              obtain rfl : m + 1 = n := by simpa [ho, Except.map] using hn
              obtain ⟨hall, hreg, rfl⟩ := ih.1 ⟨ho, ht⟩
              exact ⟨⟨hm, hall⟩, ⟨s', rfl, hreg⟩, rfl⟩
          · rintro ⟨⟨-, hall⟩, ⟨_, ⟨⟩, hreg⟩, rfl⟩
            obtain ⟨ho, ht⟩ := ih.2 ⟨hall, hreg, rfl⟩
            exact ⟨by rw [ho]; rfl, ht⟩

/-- Reading a document without error is registering its closed blocks. -/
theorem read_eq_ok_iff {text : Text} :
    (read document text s).outcome = .ok n ∧ (read document text s).store = t ↔
      (∀ b ∈ blocks (Text.numbered text), b.misplaced? = none) ∧
        registerAll (closedBlocks document (blocks (Text.numbered text))) s = .ok t ∧
        n = (blocks (Text.numbered text)).countP (·.closed) := by
  rw [read, readLines_eq_process]
  exact process_eq_ok_iff

end Document

/-! ## Expansion -/

/-- Expansion looks at a store by the names of references only. -/
theorem Chunk.expand_congr {s s' : Store} (h : ∀ name, s.lookup name = s'.lookup name)
    (c : Chunk) (config : Config) : c.expand s config = c.expand s' config :=
  expand_of_content rfl (fun r _ => by rw [h]) config

/-! ## Two documents -/

namespace Document

/-- The documents have no chunk in common: no key is that of a closed block of both. -/
def Apart (text text' : Text) : Prop :=
  ∀ b ∈ blocks (Text.numbered text), ∀ b' ∈ blocks (Text.numbered text'),
    b.closed → b'.closed → b.key ≠ b'.key

theorem Apart.closedBlocks {text text' : Text} (h : Apart text text') (document document' : Path) :
    ∀ x ∈ Document.closedBlocks document (blocks (Text.numbered text)),
      ∀ y ∈ Document.closedBlocks document' (blocks (Text.numbered text')), x.2.key ≠ y.2.key := by
  intro x hx y hy
  obtain ⟨b, hb, rfl⟩ := List.mem_map.1 hx
  obtain ⟨b', hb', rfl⟩ := List.mem_map.1 hy
  rw [List.mem_filter] at hb hb'
  exact h b hb.1 b' hb'.1 hb.2 hb'.2

/-- Documents that have no chunk in common may be read in either order, on any store:
    if one order succeeds, so does the other, with the same counts; the same chunk is
    found under every key and for every name, every chunk is expanded to the same, and
    only the order of the chunks in their registries may differ. -/
theorem read_either_order (s : Store) (document document' : Path) (text text' : Text)
    (hapart : Apart text text') (n n' : Nat)
    (h : (read document text s).outcome = .ok n)
    (h' : (read document' text' (read document text s).store).outcome = .ok n') :
    let t := (read document' text' (read document text s).store).store
    let t' := (read document text (read document' text' s).store).store
    (read document' text' s).outcome = .ok n' ∧
      (read document text (read document' text' s).store).outcome = .ok n ∧
      (∀ k, t.get? k = t'.get? k) ∧ (∀ name, t.lookup name = t'.lookup name) ∧
      (∀ (c : Chunk) config, c.expand t config = c.expand t' config) ∧
      ∀ kind, (t.registry kind).Perm (t'.registry kind) := by
  intro t t'
  obtain ⟨hall, hreg, hn⟩ := read_eq_ok_iff.1 ⟨h, rfl⟩
  obtain ⟨hall', hreg', hn'⟩ := read_eq_ok_iff.1 ⟨h', rfl⟩
  obtain ⟨u, hu, hagree⟩ := registerAll_append_comm (hapart.closedBlocks document document')
    (registerAll_append_eq_ok_iff.2 ⟨_, hreg, hreg'⟩)
  obtain ⟨s', hs', hu⟩ := registerAll_append_eq_ok_iff.1 hu
  obtain ⟨houtcome', hstore'⟩ := read_eq_ok_iff.2 ⟨hall', hs', hn'⟩
  rw [← hstore'] at hu
  obtain ⟨houtcome, hstore⟩ := read_eq_ok_iff.2 ⟨hall, hu, hn⟩
  obtain rfl : t' = u := hstore
  exact ⟨houtcome', houtcome, hagree.get?, hagree.lookup,
    fun c config => c.expand_congr hagree.lookup config, hagree.registry⟩

/-- A file that refers to a fragment of the other document. -/
def caller : Text := "@(f@) = c\n@<a@>\n@\n".toList

/-- The fragment that is referred to, in two blocks, and a block without an end. -/
def called : Text := "@<a@> = c\nx\n@\n@<a@> =+ c\ny\n@\n@(f@) = c\n".toList

theorem read_caller_called :
    Apart caller called ∧ (read ⟨['d']⟩ caller {}).outcome = .ok 1 ∧
      (read ⟨['e']⟩ called (read ⟨['d']⟩ caller {}).store).outcome = .ok 2 ∧
      (read ⟨['e']⟩ called {}).outcome = .ok 2 ∧
      (read ⟨['d']⟩ caller (read ⟨['e']⟩ called {}).store).outcome = .ok 1 := by
  have hapart : Apart caller called := by
    rw [Apart]
    decide +kernel
  have h : (read ⟨['d']⟩ caller {}).outcome = .ok 1 := by decide
  have h' : (read ⟨['e']⟩ called (read ⟨['d']⟩ caller {}).store).outcome = .ok 2 := by decide
  obtain ⟨ho', ho, -⟩ := read_either_order {} ⟨['d']⟩ ⟨['e']⟩ caller called hapart 1 2 h h'
  exact ⟨hapart, h, h', ho', ho⟩

end Document

end Tangle
