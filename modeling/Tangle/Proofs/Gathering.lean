import Tangle.Proofs.EitherOrder
import Mathlib.Data.List.Infix

/-!
# Chunks gathered from documents

A chunk is gathered from blocks: the closed blocks of the documents that have its key, in
the order in which they are read. Each of them adds one occurrence at the end of the chunk
and leaves all other chunks as they are (`Block.occurrences_register`), so the occurrences
of a chunk are those of its blocks (`Document.occurrences_registerAll`).

* Documents that are all read without an error (`Document.readAll`) register all of their
  closed blocks (`Document.registerAll_of_readAll`).
* A document with an error registers the closed blocks before the error, and no other ones
  (`Document.registerAll_of_read`).
-/

namespace Tangle

open Relation

/-- The occurrences of the chunk of a key, of which there are none if there is no chunk. -/
def Store.occurrences (s : Store) (k : Key) : List Occurrence :=
  ((s.get? k).map (·.occurrences)).getD []

theorem Store.occurrences_of_get? {s : Store} {k : Key} {c : Chunk} (h : s.get? k = some c) :
    s.occurrences k = c.occurrences := by
  rw [occurrences, h]
  rfl

theorem Store.occurrences_empty (k : Key) : ({} : Store).occurrences k = [] := by
  obtain ⟨kind, name⟩ := k
  cases kind <;> rfl

theorem Store.Consistent.of_registers {Q : Occurrence → Prop} {s t : Store} (hs : s.Consistent)
    (h : ReflTransGen (Registers Q) s t) : t.Consistent := by
  induction h with
  | refl => exact hs
  | tail _ hr ih => exact ih.registers hr

/-! ## One block -/

namespace Block

variable {b : Block} {document : Path} {s t : Store}

/-- A block defines the chunk of its key, or extends it. -/
theorem register_cases (h : b.register document s = .ok t) :
    (s.get? b.key = none ∧ t.get? b.key = some (b.definition document)) ∨
      ∃ c, s.get? b.key = some c ∧ t.get? b.key = some (b.extension document c) := by
  have hfits := (register_eq_ok_iff.1 h).1
  rw [get?_register h, if_pos rfl, leave]
  rw [Fits] at hfits
  cases ho : b.opening.operator with
  | define =>
    simp only [ho] at hfits
    exact .inl ⟨hfits, rfl⟩
  | extend =>
    simp only [ho] at hfits
    obtain ⟨c, hc⟩ := Option.ne_none_iff_exists'.1 hfits
    exact .inr ⟨c, hc, by rw [hc]; rfl⟩

/-- A block adds its occurrence to the chunk of its key, and nothing to other chunks. -/
theorem occurrences_register (h : b.register document s = .ok t) (k : Key) :
    t.occurrences k = s.occurrences k ++ if b.key = k then [b.occurrence document] else [] := by
  rw [Store.occurrences, Store.occurrences]
  by_cases e : b.key = k
  · subst e
    rw [if_pos rfl]
    obtain ⟨hs, ht⟩ | ⟨c, hs, ht⟩ := register_cases h <;> rw [hs, ht] <;> rfl
  · rw [get?_register h, if_neg (Ne.symm e), if_neg e, List.append_nil]

/-- To register a block is to close its draft. -/
theorem register_registers (h : b.register document s = .ok t) :
    ReflTransGen (Store.Registers fun _ => True) s t := by
  refine Draft.close_registers (d := b.draft document) trivial ?_
  rw [close_draft]
  exact h

end Block

/-! ## Many blocks -/

namespace Document

variable {xs : List (Path × Block)} {s t : Store}

/-- The blocks of a chunk, among others. -/
def ofKey (k : Key) (xs : List (Path × Block)) : List (Path × Block) := xs.filter (·.2.key = k)

theorem mem_ofKey_iff {k : Key} {x : Path × Block} : x ∈ ofKey k xs ↔ x ∈ xs ∧ x.2.key = k := by
  simp [ofKey]

/-- The blocks of a chunk add their occurrences to it, in order. -/
theorem occurrences_registerAll (h : registerAll xs s = .ok t) (k : Key) :
    t.occurrences k = s.occurrences k ++ (ofKey k xs).map fun x => x.2.occurrence x.1 := by
  induction xs generalizing s with
  | nil =>
    cases h
    exact (List.append_nil _).symm
  | cons x xs ih =>
    obtain ⟨u, hu, ht⟩ := registerAll_cons_eq_ok_iff.1 h
    rw [ih ht, Block.occurrences_register hu, List.append_assoc, ofKey, ofKey, List.filter_cons]
    by_cases e : x.2.key = k <;> simp [e]

theorem registerAll_registers (h : registerAll xs s = .ok t) :
    ReflTransGen (Store.Registers fun _ => True) s t := by
  induction xs generalizing s with
  | nil =>
    cases h
    exact .refl
  | cons x xs ih =>
    obtain ⟨u, hu, ht⟩ := registerAll_cons_eq_ok_iff.1 h
    exact (Block.register_registers hu).trans (ih ht)

/-! ## Documents -/

/-- The store that documents leave, one after the other, if none of them has an error. -/
def readAll : List (Path × Text) → Store → Except Error Store
  | [], s => .ok s
  | d :: more, s =>
    let r := read d.1 d.2 s
    r.outcome.bind fun _ => readAll more r.store

/-- The closed blocks of documents, each with the path of its document. -/
def allBlocks (documents : List (Path × Text)) : List (Path × Block) :=
  documents.flatMap fun d => closedBlocks d.1 (blocks (Text.numbered d.2))

theorem mem_closedBlocks_iff {document : Path} {bs : List Block} {x : Path × Block} :
    x ∈ closedBlocks document bs ↔ x.1 = document ∧ x.2 ∈ bs ∧ x.2.closed := by
  obtain ⟨path, b⟩ := x
  simp only [closedBlocks, List.mem_map, List.mem_filter, Prod.mk.injEq]
  constructor
  · rintro ⟨b, hb, rfl, rfl⟩
    exact ⟨rfl, hb⟩
  · rintro ⟨rfl, hb⟩
    exact ⟨b, hb, rfl, rfl⟩

theorem mem_allBlocks_iff {documents : List (Path × Text)} {x : Path × Block} :
    x ∈ allBlocks documents ↔
      ∃ text, (x.1, text) ∈ documents ∧ x.2 ∈ blocks (Text.numbered text) ∧ x.2.closed := by
  simp only [allBlocks, List.mem_flatMap, mem_closedBlocks_iff, Prod.exists]
  constructor
  · rintro ⟨path, text, hd, rfl, hb⟩
    exact ⟨text, hd, hb⟩
  · rintro ⟨text, hd, hb⟩
    exact ⟨x.1, text, hd, rfl, hb⟩

/-- Documents without an error register all of their closed blocks. -/
theorem registerAll_of_readAll {documents : List (Path × Text)}
    (h : readAll documents s = .ok t) : registerAll (allBlocks documents) s = .ok t := by
  induction documents generalizing s with
  | nil => exact h
  | cons d documents ih =>
    rw [readAll] at h
    cases hn : (read d.1 d.2 s).outcome with
    | error e => simp [hn, Except.bind] at h
    | ok n =>
      obtain ⟨-, hfirst, -⟩ := read_eq_ok_iff.1 ⟨hn, rfl⟩
      simp only [hn, Except.bind] at h
      exact registerAll_append_eq_ok_iff.2 ⟨_, hfirst, ih h⟩

/-- Documents without an error leave a consistent store, if they are read into one. -/
theorem consistent_of_readAll {documents : List (Path × Text)} (hs : s.Consistent)
    (h : readAll documents s = .ok t) : t.Consistent :=
  hs.of_registers (registerAll_registers (registerAll_of_readAll h))

/-- The occurrences of a chunk are those of its blocks. -/
theorem occurrences_of_readAll {documents : List (Path × Text)} {c : Chunk}
    (h : readAll documents {} = .ok s) (hc : c ∈ s.chunks) :
    c.occurrences = (ofKey c.key (allBlocks documents)).map fun x => x.2.occurrence x.1 := by
  have hget := (consistent_of_readAll .empty h).get?_key hc
  rw [← Store.occurrences_of_get? hget, occurrences_registerAll (registerAll_of_readAll h),
    Store.occurrences_empty, List.nil_append]

/-- Processing blocks registers the closed ones up to an error, if there is one. -/
theorem registerAll_of_process (document : Path) (bs : List Block) (s : Store) :
    ∃ front, front <+: bs ∧
      registerAll (closedBlocks document front) s = .ok (process document bs s).store := by
  induction bs generalizing s with
  | nil => exact ⟨[], List.prefix_rfl, rfl⟩
  | cons b bs ih =>
    rw [process]
    cases b.misplaced? with
    | some number => exact ⟨[], List.nil_prefix, rfl⟩
    | none =>
      cases hclosed : b.closed with
      | false =>
        obtain ⟨front, hfront, hreg⟩ := ih s
        refine ⟨b :: front, List.cons_prefix_cons.2 ⟨rfl, hfront⟩, ?_⟩
        simpa [closedBlocks, hclosed] using hreg
      | true =>
        cases hb : b.register document s with
        | error e => exact ⟨[], List.nil_prefix, rfl⟩
        | ok u =>
          obtain ⟨front, hfront, hreg⟩ := ih u
          refine ⟨b :: front, List.cons_prefix_cons.2 ⟨rfl, hfront⟩, ?_⟩
          have hblocks : closedBlocks document (b :: front) =
              (document, b) :: closedBlocks document front := by simp [closedBlocks, hclosed]
          rw [hblocks]
          exact registerAll_cons_eq_ok_iff.2 ⟨u, hb, hreg⟩

/-- Reading a document registers its closed blocks up to an error, if there is one. -/
theorem registerAll_of_read (document : Path) (text : Text) (s : Store) :
    ∃ front, front <+: blocks (Text.numbered text) ∧
      registerAll (closedBlocks document front) s = .ok (read document text s).store := by
  rw [read, readLines_eq_process]
  exact registerAll_of_process document _ s

end Document

end Tangle
