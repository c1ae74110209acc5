import Tangle.Proofs.Blocks
import Mathlib.Data.List.Basic
import Mathlib.Data.List.Infix

/-!
# Numbers of lines

The lines of a document are numbered one after the other (`Consecutive`), and so are the lines
inside a block. A closed block *spans* the lines of a document between its opening line and its
closing line (`Block.Spans`), and none of the lines between them closes a block.

The code of a block is what is left of these lines without the shebang lines, so its lines are
not numbered one after the other: the number of a line of code is that of the opening line, plus
the lines of code up to it, plus the shebang lines above it (`Block.Spans.number_eq`). The
closing line is counted in the same way (`Block.Spans.last_eq`).
-/

namespace Tangle

/-! ## Consecutive numbers -/

/-- The lines are numbered one after the other, from a first number on. -/
def Consecutive (first : Nat) (lines : List (Nat × Text)) : Prop :=
  lines.map (·.1) = List.range' first lines.length

namespace Consecutive

variable {first : Nat} {line : Nat × Text} {lines more : List (Nat × Text)}

theorem numbered (t : Text) : Consecutive 1 (Text.numbered t) := by
  rw [Consecutive, Text.numbered, List.map_map, List.length_map, List.length_zipIdx]
  exact List.zipIdx_map_snd 1 _

/-- Lines after others are numbered from the number after theirs. -/
theorem append_iff :
    Consecutive first (lines ++ more) ↔
      Consecutive first lines ∧ Consecutive (first + lines.length) more := by
  rw [Consecutive, Consecutive, Consecutive, List.map_append, List.length_append,
    ← List.range'_append_1]
  constructor
  · intro h
    exact List.append_inj h (by simp)
  · rintro ⟨h, h'⟩
    rw [h, h']

theorem cons_iff :
    Consecutive first (line :: lines) ↔ line.1 = first ∧ Consecutive (first + 1) lines := by
  rw [Consecutive, Consecutive, List.map_cons, List.length_cons, List.range'_succ, List.cons.injEq]

/-- The numbers are those from the first one on, as many as there are lines. -/
theorem bounds (h : Consecutive first lines) (hline : line ∈ lines) :
    first ≤ line.1 ∧ line.1 < first + lines.length := by
  rw [← List.mem_range'_1, ← h]
  exact List.mem_map_of_mem hline

/-- The numbers increase, also if some of the lines are left out. -/
theorem pairwise_filter (h : Consecutive first lines) (p : Nat × Text → Bool) :
    ((lines.filter p).map (·.1)).Pairwise (· < ·) := by
  refine List.Pairwise.sublist (List.filter_sublist.map _) ?_
  rw [h]
  exact List.pairwise_lt_range'

end Consecutive

/-! ## Blocks between their lines -/

/-- The block is closed by the line of that number, and has the lines between its opening line
    and that one. -/
structure Block.Spans (b : Block) (lines : List (Nat × Text)) (last : Nat) : Prop where
  /-- The block starts at a line that opens it. -/
  opening : ∃ line, (b.number, line) ∈ lines ∧ Directive.classify line = .opening b.opening
  /-- The block ends at a line that closes it. -/
  closing : ∃ line, (last, line) ∈ lines ∧ Directive.classify line = .closing
  /-- The lines of the block are those in between. -/
  inside : b.inside = lines.filter fun line => b.number < line.1 ∧ line.1 < last
  /-- None of them closes the block. -/
  unclosed : ∀ line ∈ b.inside, Block.closes line = false
  /-- They are numbered one after the other, after the opening line. -/
  consecutive : Consecutive (b.number + 1) b.inside
  /-- The number of the closing line is the next one. -/
  next : last = b.number + 1 + b.inside.length

namespace Document

variable {b : Block} {lines : List (Nat × Text)}

/-- A closed block stands among the lines between its opening line and its closing line. -/
theorem split_of_mem_blocks (h : b ∈ blocks lines) (hclosed : b.closed) :
    ∃ front opening closing back,
      lines = front ++ (b.number, opening) :: (b.inside ++ closing :: back) ∧
        Directive.classify opening = .opening b.opening ∧ Block.closes closing ∧
        ∀ line ∈ b.inside, Block.closes line = false := by
  fun_induction blocks lines with
  | case1 => exact absurd h List.not_mem_nil
  | case2 number line rest o hc inside after ih =>
    have hrest : rest = inside ++ rest.dropWhile (!Block.closes ·) :=
      List.takeWhile_append_dropWhile.symm
    rcases List.mem_cons.1 h with rfl | h
    · -- The block starts at the first line, and ends where its lines were cut off.
      obtain ⟨closing, back, hd⟩ :
          ∃ closing back, rest.dropWhile (!Block.closes ·) = closing :: back := by
        refine List.exists_cons_of_ne_nil fun hnil => ?_
        obtain ⟨line, hline, hcloses⟩ := List.any_eq_true.1 hclosed
        simpa [hcloses] using List.dropWhile_eq_nil_iff.1 hnil line hline
      have hcloses : Block.closes closing := by
        have := List.head?_dropWhile_not (!Block.closes ·) rest
        simpa [hd] using this
      refine ⟨[], line, closing, back, ?_, hc, hcloses, fun l hl => ?_⟩
      · rw [List.nil_append, ← hd, ← hrest]
      · simpa using List.mem_takeWhile_imp hl
    · -- The block comes later, among the lines after the first one.
      obtain ⟨front, opening, closing, back, hafter, hopening⟩ := ih h
      refine ⟨(number, line) :: rest.take (rest.length - after.length) ++ front, opening, closing,
        back, ?_, hopening⟩
      have hsuffix : after <:+ rest :=
        (List.tail_suffix _).trans (List.dropWhile_suffix _)
      rw [List.append_assoc, ← hafter, List.cons_append, List.suffix_iff_eq_append.1 hsuffix]
  | case3 number line rest hc ih =>
    obtain ⟨front, opening, closing, back, rfl, hopening⟩ := ih h
    exact ⟨(number, line) :: front, opening, closing, back, rfl, hopening⟩

/-- A closed block spans lines of the document. -/
theorem exists_spans {text : Text} (h : b ∈ blocks (Text.numbered text)) (hclosed : b.closed) :
    ∃ last, b.Spans (Text.numbered text) last := by
  obtain ⟨front, opening, closing, back, hlines, hopening, hcloses, hunclosed⟩ :=
    split_of_mem_blocks h hclosed
  have hnumbered := Consecutive.numbered text
  rw [hlines, Consecutive.append_iff, Consecutive.cons_iff, Consecutive.append_iff,
    Consecutive.cons_iff] at hnumbered
  obtain ⟨hfront, hnumber, hinside, hlast, hback⟩ := hnumbered
  replace hnumber : b.number = 1 + front.length := hnumber
  rw [← hnumber] at hinside hlast hback
  rw [hlines]
  refine ⟨closing.1, ⟨opening, by simp, hopening⟩, ⟨closing.2, by simp, ?_⟩, ?_, hunclosed,
    hinside, hlast⟩
  · simpa [Block.closes] using hcloses
  · -- Lines before the block have smaller numbers, and lines after it have greater ones.
    have hbefore : ∀ line ∈ front, ¬b.number < line.1 := fun line hline => by
      have := (hfront.bounds hline).2
      omega
    have hbetween : ∀ line ∈ b.inside, b.number < line.1 ∧ line.1 < closing.1 :=
      fun line hline => by
        have := hinside.bounds hline
        omega
    have hafter : ∀ line ∈ back, ¬line.1 < closing.1 := fun line hline => by
      have := (hback.bounds hline).1
      omega
    rw [List.filter_append, List.filter_cons_of_neg (by simp), List.filter_append,
      List.filter_cons_of_neg (by simp), List.filter_eq_nil_iff.2, List.filter_eq_self.2,
      List.filter_eq_nil_iff.2, List.nil_append, List.append_nil]
    · exact fun line hline => by simp [hafter line hline]
    · exact fun line hline => by simp [hbetween line hline]
    · exact fun line hline => by simp [hbefore line hline]

end Document

/-! ## Lines of code -/

/-- An item that is left over stands after as many items that are left over as its index
    says. -/
theorem split_of_getElem?_filter {α : Type} {p : α → Bool} {l : List α} {i : Nat} {a : α}
    (h : (l.filter p)[i]? = some a) :
    ∃ above below, l = above ++ a :: below ∧ p a ∧ (above.filter p).length = i := by
  obtain ⟨hlength, ha⟩ := List.getElem?_eq_some_iff.1 h
  have hcut := List.take_append_drop i (l.filter p)
  rw [List.drop_eq_getElem_cons hlength, ha, eq_comm, List.filter_eq_append_iff] at hcut
  obtain ⟨first, rest, rfl, hfirst, hrest⟩ := hcut
  obtain ⟨between, below, rfl, hbetween, hp, -⟩ := List.filter_eq_cons_iff.1 hrest
  refine ⟨first ++ between, below, (List.append_assoc ..).symm, hp, ?_⟩
  rw [List.filter_append, hfirst, List.filter_eq_nil_iff.2 hbetween, List.append_nil,
    List.length_take, Nat.min_eq_left (Nat.le_of_lt hlength)]

namespace Block

/-- The number of shebang lines of the block above a line. -/
def shebangsAbove (b : Block) (number : Nat) : Nat :=
  b.inside.countP fun line => (shebang? line).isSome ∧ line.1 < number

theorem isCode_eq {line : Nat × Text} (h : closes line = false) :
    isCode line = !(shebang? line).isSome := by
  rw [isCode, h, Bool.not_false, Bool.true_and, Option.not_isSome]

/-- A line that does not close the block is code or a shebang line. -/
theorem length_eq {lines : List (Nat × Text)} (h : ∀ line ∈ lines, closes line = false) :
    lines.length = (lines.filter isCode).length +
      lines.countP fun line => (shebang? line).isSome := by
  rw [List.length_eq_countP_add_countP isCode, List.countP_eq_length_filter,
    Nat.add_left_cancel_iff]
  refine List.countP_congr fun line hline => ?_
  rw [isCode_eq (h line hline)]
  simp only [Bool.not_eq_true, Bool.not_eq_false', decide_eq_true_eq]

namespace Spans

variable {b : Block} {lines : List (Nat × Text)} {last : Nat} (h : b.Spans lines last)

include h

theorem mem_of_mem_inside {line : Nat × Text} (hline : line ∈ b.inside) : line ∈ lines := by
  rw [h.inside] at hline
  exact (List.mem_filter.1 hline).1

/-- The lines of a block are between the opening line and the closing line. -/
theorem bounds {line : Nat × Text} (hline : line ∈ b.inside) :
    b.number < line.1 ∧ line.1 < last := by
  have := h.consecutive.bounds hline
  have := h.next
  omega

/-- The closing line comes after all lines of code and all shebang lines. -/
theorem last_eq : last = b.number + 1 + (b.inside.filter isCode).length + b.shebangs.length := by
  rw [h.next, length_eq h.unclosed, shebangs, List.length_filterMap_eq_countP,
    ← Nat.add_assoc]

/-- The shebang lines above a line of code are those before it in the block. -/
theorem shebangsAbove_eq {above below : List (Nat × Text)} {line : Nat × Text}
    (hinside : b.inside = above ++ line :: below) (hcode : isCode line) :
    b.shebangsAbove line.1 = above.countP fun l => (shebang? l).isSome := by
  have hconsecutive := h.consecutive
  rw [hinside, Consecutive.append_iff, Consecutive.cons_iff] at hconsecutive
  obtain ⟨hcabove, hnumber, hcbelow⟩ := hconsecutive
  have habove : ∀ l ∈ above, l.1 < line.1 := fun l hl => by
    have := (hcabove.bounds hl).2
    omega
  have hbelow : ∀ l ∈ below, ¬l.1 < line.1 := fun l hl => by
    have := (hcbelow.bounds hl).1
    omega
  have hhere : (shebang? line).isSome = false := by
    rw [isCode_eq (h.unclosed line (by simp [hinside]))] at hcode
    simpa using hcode
  have hnone : below.countP (fun l => (shebang? l).isSome ∧ l.1 < line.1) = 0 :=
    List.countP_eq_zero.2 fun l hl => by simp [hbelow l hl]
  rw [shebangsAbove, hinside, List.countP_append, List.countP_cons_of_neg (by simp [hhere]),
    hnone, Nat.add_zero]
  exact List.countP_congr fun l hl => by simp [habove l hl]

/-- Each line of code comes after the lines of code and the shebang lines above it. -/
theorem number_eq {i : Nat} {line : Nat × Text}
    (hi : (b.inside.filter isCode)[i]? = some line) :
    line.1 = b.number + 1 + i + b.shebangsAbove line.1 := by
  obtain ⟨above, below, hinside, hcode, hi⟩ := split_of_getElem?_filter hi
  have hnumber := h.consecutive
  rw [hinside, Consecutive.append_iff, Consecutive.cons_iff] at hnumber
  have hunclosed := h.unclosed
  rw [hinside, List.forall_mem_append] at hunclosed
  calc line.1
    _ = b.number + 1 + above.length := hnumber.2.1
    _ = b.number + 1 + (i + above.countP fun l => (shebang? l).isSome) := by
      rw [length_eq hunclosed.1, hi]
    _ = b.number + 1 + i + b.shebangsAbove line.1 := by
      rw [h.shebangsAbove_eq hinside hcode, ← Nat.add_assoc]

end Spans

end Block

end Tangle
