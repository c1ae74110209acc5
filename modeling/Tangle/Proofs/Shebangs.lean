import Tangle.Proofs.Gathering

/-!
# Shebangs of file chunks

The shebang of a file chunk comes from the shebang lines in its blocks. Within a block the
last of these lines decides, also if it is bare: a bare line *takes back* what the lines
above it in the same block gave (`Block.TakesBack`). A block that is left without a shebang
leaves that of the chunk as it is, so among the blocks of a chunk the last one that is left
with a shebang decides (`Document.shebang_registerAll`).

Hence the shebang of a chunk is not always the last one that is given and not empty
(`Document.shebang_taken_back`). It is if no block takes back a shebang
(`Document.shebang_of_readAll`).
-/

namespace Tangle

/-! ## One block -/

namespace Block

/-- The last shebang that is given and not empty. -/
def lastGiven (given : List (Nat × Text)) : Option Text :=
  ((given.map (·.2)).filter (· ≠ [])).getLast?

/-- The block gives a shebang, but a bare line after it is the last one. -/
def TakesBack (b : Block) : Prop := b.shebang = none ∧ ∃ line ∈ b.shebangs, line.2 ≠ []

instance (b : Block) : Decidable b.TakesBack :=
  inferInstanceAs (Decidable (b.shebang = none ∧ ∃ line ∈ b.shebangs, line.2 ≠ []))

variable {b : Block}

/-- What is left of the shebangs given is none, or else the last one that is not empty. -/
theorem lastShebang_eq (given : List (Nat × Text)) :
    lastShebang given = none ∨ lastShebang given = lastGiven given := by
  rcases List.eq_nil_or_concat given with rfl | ⟨front, line, rfl⟩
  · exact .inl rfl
  · rw [List.concat_eq_append, lastShebang, lastGiven]
    by_cases h : line.2 = [] <;> simp [h, Option.filter]

theorem lastGiven_eq_none_iff {given : List (Nat × Text)} :
    lastGiven given = none ↔ ∀ line ∈ given, line.2 = [] := by
  rw [lastGiven, List.getLast?_eq_none_iff, List.filter_eq_nil_iff, List.forall_mem_map]
  simp only [decide_eq_true_eq, not_not]

/-- A block is left with the last shebang that it gives, unless it takes it back. -/
theorem shebang_eq_lastGiven_iff : b.shebang = lastGiven b.shebangs ↔ ¬b.TakesBack := by
  constructor
  · rintro h ⟨hnone, line, hline, hne⟩
    rw [h, lastGiven_eq_none_iff] at hnone
    exact hne (hnone line hline)
  · intro hkeeps
    rcases lastShebang_eq b.shebangs with hnone | h
    · -- Nothing is left, so nothing but bare lines was given.
      have hbare : ∀ line ∈ b.shebangs, line.2 = [] := by
        intro line hline
        by_contra hne
        exact hkeeps ⟨hnone, line, hline, hne⟩
      exact hnone.trans (lastGiven_eq_none_iff.2 hbare).symm
    · exact h

variable {document : Path} {s t : Store}

theorem shebang_definition (hkind : b.key.kind = .file) :
    (b.definition document).shebang = b.shebang := by
  have hopening : b.opening.kind = .file := hkind
  rw [definition, Chunk.shebang, hopening]

/-- An extension replaces the shebang of a file chunk, if the block is left with one. -/
theorem shebang_extension {c : Chunk} (hc : c.kind = .file) :
    (b.extension document c).shebang = b.shebang.or c.shebang := by
  rw [Chunk.kind] at hc
  cases hrole : c.role with
  | fragment =>
    rw [hrole] at hc
    cases hc
  | file before => cases h : b.shebang <;> simp [extension, Chunk.shebang, hrole, h]

end Block

/-- The shebang of the chunk of a key. -/
def Store.shebang (s : Store) (k : Key) : Option Text := (s.get? k).bind (·.shebang)

theorem Store.shebang_empty (k : Key) : ({} : Store).shebang k = none := by
  obtain ⟨kind, name⟩ := k
  cases kind <;> rfl

/-- A block gives its shebang to the file chunk of its key, if it is left with one. -/
theorem Block.shebang_register {b : Block} {document : Path} {s t : Store} (hs : s.Consistent)
    (h : b.register document s = .ok t) {k : Key} (hk : k.kind = .file) :
    t.shebang k = if b.key = k then b.shebang.or (s.shebang k) else s.shebang k := by
  rw [Store.shebang, Store.shebang]
  by_cases e : b.key = k
  · subst e
    rw [if_pos rfl]
    obtain ⟨hbefore, hafter⟩ | ⟨c, hbefore, hafter⟩ := register_cases h
    · rw [hbefore, hafter, Option.bind_some, shebang_definition hk, Option.bind_none,
        Option.or_none]
    · have hkind : c.kind = .file := (hs.kind _ c (List.mem_of_find?_eq_some hbefore)).trans hk
      rw [hbefore, hafter, Option.bind_some, shebang_extension hkind, Option.bind_some]
  · rw [get?_register h, if_neg (Ne.symm e), if_neg e]

/-! ## All blocks of a chunk -/

namespace Document

variable {xs : List (Path × Block)} {s t : Store} {k : Key}

/-- The last block that is left with a shebang decides. -/
theorem shebang_registerAll (hs : s.Consistent) (h : registerAll xs s = .ok t)
    (hk : k.kind = .file) :
    t.shebang k = ((ofKey k xs).filterMap (·.2.shebang)).getLast?.or (s.shebang k) := by
  induction xs generalizing s with
  | nil =>
    cases h
    rfl
  | cons x xs ih =>
    obtain ⟨u, hu, ht⟩ := registerAll_cons_eq_ok_iff.1 h
    rw [ih (hs.of_registers (Block.register_registers hu)) ht, Block.shebang_register hs hu hk,
      ofKey, ofKey, List.filter_cons]
    by_cases e : x.2.key = k
    · cases hb : x.2.shebang <;> simp [e, hb, List.getLast?_cons]
    · simp [e]

/-- The last shebang that is given in blocks is that of the last block that gives one. -/
theorem lastGiven_flatMap (xs : List (Path × Block)) :
    Block.lastGiven (xs.flatMap (·.2.shebangs)) =
      (xs.filterMap fun x => Block.lastGiven x.2.shebangs).getLast? := by
  rw [Block.lastGiven, List.map_flatMap, List.filter_flatMap, List.getLast?_flatMap,
    List.getLast?_filterMap]
  rfl

/-- The shebang of a file chunk is what the last of its blocks is left with that is left with
    one, and a block is left with its last shebang unless a bare line takes it back. If no
    block of the chunk takes a shebang back, then the chunk has the last shebang that is given
    and not empty. -/
theorem shebang_of_readAll (documents : List (Path × Text)) (s : Store)
    (hs : readAll documents {} = .ok s) (c : Chunk) (hc : c ∈ s.files) :
    let given := ofKey c.key (allBlocks documents)
    c.shebang = (given.filterMap (·.2.shebang)).getLast? ∧
      (∀ x ∈ given, x.2.shebang = Block.lastGiven x.2.shebangs ↔ ¬x.2.TakesBack) ∧
      ((∀ x ∈ given, ¬x.2.TakesBack) →
        c.shebang = Block.lastGiven (given.flatMap (·.2.shebangs))) := by
  intro given
  have hconsistent := consistent_of_readAll .empty hs
  have hkind : c.key.kind = .file := hconsistent.kind .file c hc
  have hshebang : s.shebang c.key = c.shebang := by
    rw [Store.shebang, hconsistent.get?_key (List.mem_append_right _ hc)]
    rfl
  have hlast : c.shebang = (given.filterMap (·.2.shebang)).getLast? := by
    rw [← hshebang, shebang_registerAll .empty (registerAll_of_readAll hs) hkind,
      Store.shebang_empty, Option.or_none]
  refine ⟨hlast, fun x _ => Block.shebang_eq_lastGiven_iff, fun hkeeps => ?_⟩
  rw [hlast, lastGiven_flatMap]
  congr 1
  exact List.filterMap_congr fun x hx => Block.shebang_eq_lastGiven_iff.2 (hkeeps x hx)

/-- A file chunk in two documents, with a shebang in each, and bare lines that take nothing
    back. -/
def renewed : List (Path × Text) :=
  [(⟨['d']⟩, "@(f@) = c\n@shebang\n@shebang #!x\n@\n".toList),
    (⟨['e']⟩, "@(f@) =+ c\n@shebang #!y\n@\n@(f@) =+ c\n@shebang\n@\n".toList)]

/-- The file chunk of the two documents. -/
def renewedChunk : Chunk where
  name := .ofText ['f']
  language := ['c']
  role := .file (some "#!y".toList)
  occurrences := [⟨⟨⟨['d']⟩, 1⟩, []⟩, ⟨⟨⟨['e']⟩, 1⟩, []⟩, ⟨⟨⟨['e']⟩, 4⟩, []⟩]

theorem shebang_renewed :
    readAll renewed {} = .ok ⟨[], [renewedChunk]⟩ ∧
      (∀ x ∈ ofKey renewedChunk.key (allBlocks renewed), ¬x.2.TakesBack) ∧
      renewedChunk.shebang = Block.lastGiven
        ((ofKey renewedChunk.key (allBlocks renewed)).flatMap (·.2.shebangs)) := by
  have hs : readAll renewed {} = .ok ⟨[], [renewedChunk]⟩ := by decide
  have hkeeps : ∀ x ∈ ofKey renewedChunk.key (allBlocks renewed), ¬x.2.TakesBack := by
    decide +kernel
  exact ⟨hs, hkeeps,
    (shebang_of_readAll renewed _ hs renewedChunk List.mem_cons_self).2.2 hkeeps⟩

/-- A file chunk whose only block has a shebang, and a bare line after it. -/
def takenBack : List (Path × Text) :=
  [(⟨['d']⟩, "@(f@) = c\n@shebang #!x\n@shebang\n@\n".toList)]

/-- The same without the bare line. -/
def notTakenBack : List (Path × Text) := [(⟨['d']⟩, "@(f@) = c\n@shebang #!x\n@\n".toList)]

/-- The file chunk, with a shebang or without. -/
def takenBackChunk (shebang : Option Text) : Chunk where
  name := .ofText ['f']
  language := ['c']
  role := .file shebang
  occurrences := [⟨⟨⟨['d']⟩, 1⟩, []⟩]

/-- A bare line may change the shebang of a chunk: it takes back one that was given, though
    that one is the last one that is not empty. -/
theorem shebang_taken_back :
    readAll takenBack {} = .ok ⟨[], [takenBackChunk none]⟩ ∧
      readAll notTakenBack {} = .ok ⟨[], [takenBackChunk (some "#!x".toList)]⟩ ∧
      Block.lastGiven ((ofKey (takenBackChunk none).key (allBlocks takenBack)).flatMap
        (·.2.shebangs)) = some "#!x".toList ∧
      (takenBackChunk none).shebang = none :=
  ⟨by decide, by decide, by decide +kernel, rfl⟩

end Document

end Tangle
