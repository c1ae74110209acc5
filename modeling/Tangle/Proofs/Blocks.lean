import Tangle.Proofs.Registries
import Mathlib.Data.List.Induction
import Mathlib.Data.List.TakeWhile

/-!
# Blocks of a document

A document is read in one pass, with the block that is open at hand. Here it is
read in two: first it is cut into *blocks* (`Document.blocks`), by nothing but the
lines that open and close them; then the blocks are *processed* one after the
other (`Document.process`), each as a whole.

* A block is given by its opening line, the lines after it up to the next closing
  line, and whether there is such a line.
* Its code is what is left of these lines without the shebang lines, each line
  with its number; its shebang is the last one given, unless that is empty.
* A block of a fragment must not give a shebang, and a block without a closing
  line is not registered.

Both ways of reading leave the same store, note the same events, and come to the
same count or error (`Document.read_eq_process_blocks`).
-/

namespace Tangle

/-- A block of a document. -/
structure Block where
  /-- What the opening line says. -/
  opening : Opening
  /-- The number of the opening line. -/
  number : Nat
  /-- The lines up to the closing line, with their numbers. -/
  inside : List (Nat × Text)
  /-- There is a closing line. -/
  closed : Bool
deriving DecidableEq, Inhabited

namespace Block

/-- The line closes a block. -/
def closes (line : Nat × Text) : Bool := Directive.classify line.2 = .closing

/-- The shebang that a line gives, with the number of the line. -/
def shebang? (line : Nat × Text) : Option (Nat × Text) :=
  match Directive.classify line.2 with
  | .shebang text => some (line.1, text)
  | _ => none

/-- The line is code if it stands in a block. -/
def isCode (line : Nat × Text) : Bool := !closes line && (shebang? line).isNone

/-- The shebang that is left of those given: the last one, if it is not empty. -/
def lastShebang (given : List (Nat × Text)) : Option Text :=
  (given.getLast?.map (·.2)).filter (· ≠ [])

variable (b : Block) (document : Path)

/-- The key of the chunk that the block belongs to. -/
def key : Key := ⟨b.opening.kind, b.opening.name⟩

/-- The location of the block: its opening line. -/
def location : Location := ⟨document, b.number⟩

/-- The occurrence that the block adds to its chunk. -/
def occurrence : Occurrence := ⟨b.location document, b.inside.filter isCode⟩

/-- The shebangs given in the block. -/
def shebangs : List (Nat × Text) := b.inside.filterMap shebang?

/-- The shebang that the block gives to its chunk. -/
def shebang : Option Text := lastShebang b.shebangs

/-- The line of the first shebang, if there must be none. -/
def misplaced? : Option Nat :=
  match b.opening.kind with
  | .fragment => b.shebangs.head?.map (·.1)
  | .file => none

/-- The chunk that the block defines. -/
def definition : Chunk where
  name := b.opening.name
  language := b.opening.language
  role := match b.opening.kind with
    | .fragment => .fragment
    | .file => .file b.shebang
  occurrences := [b.occurrence document]

/-- The chunk once the block extends it: it has one more occurrence, and the
    shebang of the block if both have one to give and to take. -/
def extension (c : Chunk) : Chunk :=
  { c with
    occurrences := c.occurrences ++ [b.occurrence document]
    role := match c.role, b.shebang with
      | .file _, some text => .file (some text)
      | role, _ => role }

/-- The store once the block is registered: a block that defines needs a name that
    is free, and one that extends needs a name that is taken. -/
def register (s : Store) : Except Error Store :=
  match b.opening.operator, s.get? b.key with
  | .define, none =>
    .ok (s.setRegistry b.opening.kind (s.registry b.opening.kind ++ [b.definition document]))
  | .define, some _ =>
    .error (.alreadyDefined b.opening.kind b.opening.name (b.location document))
  | .extend, some _ => .ok (s.update b.key (b.extension document))
  | .extend, none => .error (.notDefined b.opening.kind b.opening.name (b.location document))

/-- The events of registering the block. -/
def events (s : Store) : List Event :=
  match b.opening.operator, s.get? b.key with
  | .define, _ => [.defined (b.location document) b.opening.kind b.opening.name]
  | .extend, none => []
  | .extend, some c =>
    (match c.shebang, b.shebang with
      | some old, some new =>
        if old = new then []
        else [.shebangChanged (b.location document) b.opening.name old new]
      | _, _ => []) ++
    [.extended (b.location document) b.opening.kind b.opening.name]

end Block

namespace Document

/-- The blocks of numbered lines: outside a block, the next opening line starts
    one, and the next closing line ends it. -/
def blocks (lines : List (Nat × Text)) : List Block :=
  match lines with
  | [] => []
  | (number, line) :: rest =>
    match Directive.classify line with
    | .opening o =>
      let inside := rest.takeWhile (!Block.closes ·)
      let after := (rest.dropWhile (!Block.closes ·)).tail
      ⟨o, number, inside, rest.any Block.closes⟩ :: blocks after
    | _ => blocks rest
termination_by lines.length
decreasing_by
  · have hle := (List.dropWhile_sublist (!Block.closes ·) (l := rest)).length_le
    simp only [List.length_tail, List.length_cons]
    omega
  · simp

/-- Processes blocks, up to the first error. -/
def process (document : Path) : List Block → Store → Reading
  | [], s => ⟨s, [], .ok 0⟩
  | b :: more, s =>
    match b.misplaced? with
    | some number => ⟨s, [], .error (.misplacedShebang b.opening.name ⟨document, number⟩)⟩
    | none =>
      if b.closed then
        match b.register document s with
        | .error e => ⟨s, b.events document s, .error e⟩
        | .ok s' =>
          let r := process document more s'
          ⟨r.store, b.events document s ++ r.log, r.outcome.map (· + 1)⟩
      else
        let r := process document more s
        ⟨r.store, .neverClosed (b.location document) b.opening.kind b.opening.name :: r.log,
          r.outcome⟩

end Document

/-! ## Registering a block -/

/-- Changing a chunk twice is changing it once, if its name stays. -/
theorem Store.update_update (s : Store) (k : Key) {f g : Chunk → Chunk}
    (hf : ∀ c, (f c).name = c.name) : (s.update k f).update k g = s.update k (g ∘ f) := by
  rw [update, update, update, registry_setRegistry, setRegistry_setRegistry, List.map_map]
  congr 2
  funext c
  by_cases h : c.name = k.name <;> simp [h, hf]

namespace Block

variable (b : Block) (document : Path)

/-- The draft of the block at its closing line. -/
def draft : Draft := ⟨b.opening, b.occurrence document, b.shebang⟩

theorem key_definition : (b.definition document).key = b.key := by
  rw [Chunk.key, Chunk.kind, definition, key]
  cases b.opening.kind <;> rfl

/-- A chunk that is given the occurrence of a block, and then its shebang if there
    is one, is extended. -/
theorem update_extension (s : Store) :
    (match b.shebang with
      | none => s.update b.key (·.append (b.occurrence document))
      | some text =>
        (s.update b.key (·.append (b.occurrence document))).setShebang b.key text) =
      s.update b.key (b.extension document) := by
  cases h : b.shebang with
  | none =>
    have he : (·.append (b.occurrence document)) = b.extension document := by
      funext c
      rw [Chunk.append, extension]
      cases c.role <;> simp [h]
    rw [← he]
  | some text =>
    have he : (·.setShebang text) ∘ (·.append (b.occurrence document)) =
        b.extension document := by
      funext c
      simp only [Function.comp_apply, Chunk.setShebang, Chunk.append, extension]
      cases c.role <;> simp [h]
    rw [← he]
    exact s.update_update b.key fun _ => rfl

/-- Closing the draft of a block registers the block. -/
theorem close_draft (s : Store) :
    (b.draft document).close s = ⟨b.events document s, b.register document s⟩ := by
  rw [Draft.close, events, register]
  cases ho : b.opening.operator with
  | define =>
    have hk : (b.definition document).kind = b.opening.kind :=
      congrArg Key.kind (b.key_definition document)
    have hd : (b.draft document).chunk = b.definition document := rfl
    simp only [draft, ho] at hd ⊢
    rw [hd, Store.define, key_definition, hk]
    cases s.get? b.key <;> rfl
  | extend =>
    have hk : (b.draft document).key = b.key := rfl
    simp only [draft, ho] at hk ⊢
    rw [hk, Store.extend]
    cases hg : s.get? b.key with
    | none => rfl
    | some c =>
      refine congrArg₂ Report.mk rfl (congrArg Except.ok ?_)
      exact b.update_extension document s

end Block

/-! ## Reading a block -/

theorem Block.misplaced?_eq_none_iff {b : Block} :
    b.misplaced? = none ↔ b.opening.kind = .file ∨ ∀ line ∈ b.inside, shebang? line = none := by
  rw [misplaced?, shebangs]
  cases b.opening.kind <;> simp

theorem Block.of_misplaced?_eq_some {b : Block} {number : Nat} (h : b.misplaced? = some number) :
    b.opening.kind = .fragment ∧ b.shebangs.head?.map (·.1) = some number := by
  rw [misplaced?] at h
  split at h
  · exact ⟨‹_›, h⟩
  · cases h

/-- The draft with one more line. -/
def Draft.take (d : Draft) (line : Nat × Text) : Draft :=
  match Block.shebang? line with
  | some (_, text) => { d with shebang := if text = [] then none else some text }
  | none => { d with occurrence := d.occurrence.push line.1 line.2 }

/-- What a draft has taken: the code of the lines, and the last shebang. -/
theorem Draft.foldl_take (o : Opening) (location : Location) (lines : List (Nat × Text))
    (hopen : ∀ line ∈ lines, Block.closes line = false) :
    lines.foldl take ⟨o, ⟨location, []⟩, none⟩ =
      ⟨o, ⟨location, lines.filter Block.isCode⟩,
        Block.lastShebang (lines.filterMap Block.shebang?)⟩ := by
  induction lines using List.reverseRecOn with
  | nil => rfl
  -- Each line is taken after the lines before it, so the last one is split off.
  | append_singleton lines line ih =>
    have hline : Block.closes line = false := hopen line (by simp)
    rw [List.foldl_append, ih fun l hl => hopen l (List.mem_append_left _ hl), List.filter_append,
      List.filterMap_append, List.foldl_cons, List.foldl_nil, take]
    cases hs : Block.shebang? line with
    | none => simp [Block.isCode, hline, hs, Occurrence.push]
    | some given => simp [Block.isCode, hs, Block.lastShebang, Option.filter]

namespace Document

variable {document : Path} {line : Nat × Text} {inside rest : List (Nat × Text)} {d : Draft}
  {s : Store}

/-- Inside a block, a line that does not close it is taken, unless it is a shebang
    in a fragment. -/
theorem readLines_cons_of_not_closes (hopen : Block.closes line = false)
    (hfree : d.opening.kind = .file ∨ Block.shebang? line = none) :
    readLines document (line :: rest) (some d) s =
      readLines document rest (some (d.take line)) s := by
  obtain ⟨number, text⟩ := line
  rw [readLines, Draft.take]
  cases hc : Directive.classify text with
  | closing => simp [Block.closes, hc] at hopen
  | opening o => simp [Block.shebang?, hc]
  | text => simp [Block.shebang?, hc]
  | shebang given =>
    have hkind : d.opening.kind = .file := by simpa [Block.shebang?, hc] using hfree
    simp [Block.shebang?, hc, hkind]

/-- Inside a block, a closing line closes it. -/
theorem readLines_cons_of_closes (h : Block.closes line = true) :
    readLines document (line :: rest) (some d) s =
      match d.close s with
      | ⟨log, .error e⟩ => ⟨s, log, .error e⟩
      | ⟨log, .ok s'⟩ =>
        let r := readLines document rest none s'
        ⟨r.store, log ++ r.log, r.outcome.map (· + 1)⟩ := by
  obtain ⟨number, text⟩ := line
  have hc : Directive.classify text = .closing := by simpa [Block.closes] using h
  rcases hclose : d.close s with ⟨log, e | s'⟩ <;> simp only [readLines, hc, hclose]

theorem readLines_append_of_not_closes (hopen : ∀ line ∈ inside, Block.closes line = false)
    (hfree : d.opening.kind = .file ∨ ∀ line ∈ inside, Block.shebang? line = none) :
    readLines document (inside ++ rest) (some d) s =
      readLines document rest (some (inside.foldl Draft.take d)) s := by
  induction inside generalizing d with
  | nil => rfl
  | cons line inside ih =>
    have hd : (d.take line).opening = d.opening := by
      rw [Draft.take]
      split <;> rfl
    rw [List.cons_append, readLines_cons_of_not_closes (hopen line List.mem_cons_self)
      (hfree.imp_right fun h => h line List.mem_cons_self)]
    refine ih (fun l hl => hopen l (List.mem_cons_of_mem _ hl)) ?_
    rw [hd]
    exact hfree.imp_right fun h l hl => h l (List.mem_cons_of_mem _ hl)

/-- Inside the block of a fragment, the first shebang is an error. -/
theorem readLines_append_of_misplaced (hopen : ∀ line ∈ inside, Block.closes line = false)
    (hkind : d.opening.kind = .fragment) {number : Nat}
    (hfirst : (inside.filterMap Block.shebang?).head?.map (·.1) = some number) :
    readLines document (inside ++ rest) (some d) s =
      ⟨s, [], .error (.misplacedShebang d.opening.name ⟨document, number⟩)⟩ := by
  induction inside generalizing d with
  | nil => simp at hfirst
  | cons line inside ih =>
    cases hs : Block.shebang? line with
    | none =>
      -- The line is code, so the first shebang comes after it.
      have hd : d.take line = { d with occurrence := d.occurrence.push line.1 line.2 } := by
        simp [Draft.take, hs]
      rw [List.cons_append, readLines_cons_of_not_closes (hopen line List.mem_cons_self) (.inr hs),
        hd]
      refine ih (fun l hl => hopen l (List.mem_cons_of_mem _ hl)) hkind ?_
      simpa [hs] using hfirst
    | some given =>
      obtain ⟨n, text⟩ := line
      have hc : ∃ given, Directive.classify text = .shebang given := by
        rw [Block.shebang?] at hs
        split at hs
        · exact ⟨_, ‹_›⟩
        · cases hs
      obtain ⟨given, hc⟩ := hc
      obtain rfl : n = number := by simpa [Block.shebang?, hc] using hfirst
      rw [List.cons_append, readLines, hc]
      simp only [hkind]

/-- Reading a block from its opening line on comes to its closing line with the
    draft of the block, if no shebang is misplaced. -/
theorem readLines_inside {b : Block} (hopen : ∀ line ∈ b.inside, Block.closes line = false)
    (hm : b.misplaced? = none) :
    readLines document (b.inside ++ rest) (some ⟨b.opening, ⟨b.location document, []⟩, none⟩) s =
      readLines document rest (some (b.draft document)) s := by
  rw [readLines_append_of_not_closes hopen (Block.misplaced?_eq_none_iff.1 hm),
    Draft.foldl_take _ _ _ hopen]
  rfl

/-- Reading a block that is closed is processing it. -/
theorem readLines_closed {b : Block} (hopen : ∀ line ∈ b.inside, Block.closes line = false)
    (hclosed : b.closed = true) (hclose : Block.closes line = true) {more : List Block}
    (hmore : ∀ s, readLines document rest none s = process document more s) :
    readLines document (b.inside ++ line :: rest)
        (some ⟨b.opening, ⟨b.location document, []⟩, none⟩) s =
      process document (b :: more) s := by
  rw [process]
  cases hm : b.misplaced? with
  | some number =>
    obtain ⟨hkind, hfirst⟩ := Block.of_misplaced?_eq_some hm
    exact readLines_append_of_misplaced hopen hkind hfirst
  | none =>
    rw [readLines_inside hopen hm, readLines_cons_of_closes hclose, Block.close_draft]
    simp only [hclosed, if_true, ← hmore]
    cases b.register document s <;> rfl

/-- Reading a block that is not closed is processing it. -/
theorem readLines_unclosed {b : Block} (hopen : ∀ line ∈ b.inside, Block.closes line = false)
    (hclosed : b.closed = false) :
    readLines document b.inside (some ⟨b.opening, ⟨b.location document, []⟩, none⟩) s =
      process document [b] s := by
  rw [process, ← List.append_nil b.inside]
  cases hm : b.misplaced? with
  | some number =>
    obtain ⟨hkind, hfirst⟩ := Block.of_misplaced?_eq_some hm
    exact readLines_append_of_misplaced hopen hkind hfirst
  | none =>
    rw [readLines_inside hopen hm]
    simp only [hclosed, Bool.false_eq_true, if_false]
    rfl

/-- Reading lines outside a block is processing their blocks. -/
theorem readLines_eq_process (document : Path) (lines : List (Nat × Text)) (s : Store) :
    readLines document lines none s = process document (blocks lines) s := by
  fun_induction blocks lines generalizing s with
  | case1 => rfl
  | case2 number line rest o hc inside after ih =>
    have hopen : ∀ l ∈ inside, Block.closes l = false := fun l hl => by
      simpa using List.mem_takeWhile_imp hl
    have hrest : rest = inside ++ rest.dropWhile (!Block.closes ·) :=
      List.takeWhile_append_dropWhile.symm
    rw [readLines, hc]
    cases hd : rest.dropWhile (!Block.closes ·) with
    | nil =>
      -- No line closes the block, so it is the last one.
      have hafter : after = [] := by simp [after, hd]
      have hnone : rest.any Block.closes = false := by simpa using hd
      rw [hd, List.append_nil] at hrest
      rw [hafter, blocks, hrest]
      exact readLines_unclosed (b := ⟨o, number, inside, _⟩) hopen (by rwa [hrest] at hnone)
    | cons l rest' =>
      -- The block ends at the line `l`, and the next one is looked for after it.
      have hafter : after = rest' := by simp [after, hd]
      have hclose : Block.closes l = true := by
        have := List.head?_dropWhile_not (!Block.closes ·) rest
        simpa [hd] using this
      have hsome : rest.any Block.closes = true :=
        List.any_eq_true.2 ⟨l, by rw [hrest, hd]; simp, hclose⟩
      rw [hafter] at ih ⊢
      rw [hd] at hrest
      nth_rewrite 1 [hrest]
      exact readLines_closed (b := ⟨o, number, inside, _⟩) hopen hsome hclose ih
  | case3 number line rest hc ih =>
    rw [readLines]
    split
    · exact absurd ‹_› (hc _)
    · exact ih s

/-- If all blocks are processed, the count is that of the blocks that are
    closed. -/
theorem process_eq_ok {bs : List Block} {n : Nat} (h : (process document bs s).outcome = .ok n) :
    n = bs.countP (·.closed) := by
  induction bs generalizing s n with
  | nil =>
    cases h
    rfl
  | cons b more ih =>
    rw [process] at h
    split at h
    · cases h
    · split at h
      · rename_i hc
        split at h
        · cases h
        · rename_i s' _
          cases hr : (process document more s').outcome with
          | error e => simp [hr, Except.map] at h
          | ok m =>
            obtain rfl : m + 1 = n := by simpa [hr, Except.map] using h
            rw [List.countP_cons_of_pos hc, ih hr]
      · rename_i hc
        rw [List.countP_cons_of_neg hc]
        exact ih h

/-- Reading a document is cutting it into blocks and processing them, and the count
    of a document without error is the number of its closed blocks. -/
theorem read_eq_process_blocks (document : Path) (text : Text) (s : Store) :
    read document text s = process document (blocks (Text.numbered text)) s ∧
      ∀ n, (read document text s).outcome = .ok n →
        n = (blocks (Text.numbered text)).countP (·.closed) := by
  have h : read document text s = process document (blocks (Text.numbered text)) s :=
    readLines_eq_process document _ s
  exact ⟨h, fun n hn => process_eq_ok (h ▸ hn)⟩

/-- A closing line outside a block, an opening line inside one, a shebang, and a
    block that is never closed. -/
def sample : Text := "@\n@(f@) = c\n@<a@> = c\n@shebang #!x\n@\n@<b@> = c\n".toList

/-- The chunk that the document defines. The opening line inside is code. -/
def sampleChunk : Chunk where
  name := .ofText ['f']
  language := ['c']
  role := .file (some "#!x".toList)
  occurrences := [⟨⟨⟨['d']⟩, 2⟩, [(3, "@<a@> = c".toList)]⟩]

/-- What is noted while the document is read. -/
def sampleLog : List Event :=
  [.defined ⟨⟨['d']⟩, 2⟩ .file (.ofText ['f']), .neverClosed ⟨⟨['d']⟩, 6⟩ .fragment (.ofText ['b'])]

theorem read_sample :
    (read ⟨['d']⟩ sample {}).outcome = .ok 1 ∧
      1 = (blocks (Text.numbered sample)).countP (·.closed) ∧
      (read ⟨['d']⟩ sample {}).store = ⟨[], [sampleChunk]⟩ ∧
      (process ⟨['d']⟩ (blocks (Text.numbered sample)) {}).store = ⟨[], [sampleChunk]⟩ ∧
      (process ⟨['d']⟩ (blocks (Text.numbered sample)) {}).log = sampleLog := by
  obtain ⟨hread, hcount⟩ := read_eq_process_blocks ⟨['d']⟩ sample {}
  have h : (read ⟨['d']⟩ sample {}).outcome = .ok 1 := by decide
  have hstore : (read ⟨['d']⟩ sample {}).store = ⟨[], [sampleChunk]⟩ := by decide
  have hlog : (read ⟨['d']⟩ sample {}).log = sampleLog := by decide
  exact ⟨h, hcount 1 h, hstore, hread ▸ hstore, hread ▸ hlog⟩

end Document

end Tangle
