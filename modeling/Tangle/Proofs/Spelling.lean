import Tangle.Line.Reference
import Tangle.Proofs.Blocks
import Tangle.Proofs.Forms

/-!
# How names are spelled

A name is spelled in two places: in the line that opens a block of the chunk, and in
the lines that refer to the chunk. The two are read by different rules, so it has to be
said that they find the same name.

* A reference has one spelling, and is read exactly if it is spelled so
  (`Reference.parse?_eq_some_iff`, `Reference.Fills.unique`): no character is lost.
* What the line that opens a block has between its brackets may be put between the
  brackets of a reference, with any blanks before and any text after it, and refers to
  the chunk of the block (`Reference.denotes_of_opening`). The line itself, if it has no
  line feed, is such a reference (`Reference.parse?_of_opening`).
-/

namespace Tangle

namespace Reference

/-- The line is the reference, with `name` between the brackets. -/
structure Fills (line name : Text) (r : Reference) : Prop where
  blank : Text.allBlank r.indent
  ne_nil : name ≠ []
  closing : '>' ∉ name
  newline : '\n' ∉ r.trailing
  name_eq : r.name = .ofText name
  eq : line = r.indent ++ '@' :: '<' :: (name ++ '@' :: '>' :: r.trailing)

variable {line name name' : Text} {r r' : Reference}

theorem startsSolid_bracket (t : Text) : Text.StartsSolid ('@' :: t) :=
  Text.startsSolid_cons (by decide) t

/-- A line is read as a reference exactly if it is spelled as one. -/
theorem parse?_eq_some_iff : parse? line = some r ↔ ∃ name, r.Fills line name := by
  constructor
  · intro h
    unfold parse? at h
    split at h
    · rename_i name trailing hbracketed
      split at h
      · cases h
      · rename_i hnewline
        cases h
        obtain ⟨hname, hclosing, hline⟩ := Line.bracketed?_eq_some_iff.1 hbracketed
        obtain ⟨hblank, hline⟩ := (Text.eq_append_iff (startsSolid_bracket _)).2 ⟨rfl, hline⟩
        exact ⟨name, hblank, hname, hclosing, hnewline, rfl, hline⟩
    · cases h
  · rintro ⟨name, h⟩
    obtain ⟨hindent, htext⟩ := (Text.eq_append_iff (startsSolid_bracket _)).1 ⟨h.blank, h.eq⟩
    have hbracketed : Line.bracketed? .fragment (line.dropWhile Text.isBlank) =
        some (name, r.trailing) := Line.bracketed?_eq_some_iff.2 ⟨h.ne_nil, h.closing, htext⟩
    rw [parse?, hbracketed]
    simp only [if_neg h.newline, ← hindent, ← h.name_eq]

/-- A reference has one spelling, and a line spells one reference. -/
theorem Fills.unique (h : r.Fills line name) (h' : r'.Fills line name') :
    r = r' ∧ name = name' := by
  obtain ⟨hindent, hrest⟩ := Text.append_inj_of_all h.blank h'.blank (startsSolid_bracket _)
    (startsSolid_bracket _) (h.eq.symm.trans h'.eq)
  simp only [List.cons.injEq, true_and] at hrest
  have hclosing : Kind.fragment.closing ∉ name := h.closing
  obtain ⟨rfl, htrailing⟩ := Line.bracketed_injective hclosing h'.closing hrest
  have hname := h.name_eq.trans h'.name_eq.symm
  cases r
  cases r'
  simp_all

/-- What stands in the brackets of a line is the name, or goes on after it. -/
theorem eq_or_append_of_bracketed {kind : Kind} {n name rest tail : Text}
    (hname : kind.closing ∉ name)
    (h : n ++ '@' :: kind.closing :: rest = name ++ '@' :: kind.closing :: tail) :
    n = name ∨ ∃ more, n = name ++ '@' :: kind.closing :: more := by
  by_cases hn : kind.closing ∈ n
  · obtain ⟨front, more, rfl, hfront⟩ := List.eq_append_cons_of_mem hn
    rw [List.append_cons name, List.append_assoc, List.cons_append] at h
    have hall : front.all (· != kind.closing) := by
      simpa using fun c hc (e : c = kind.closing) => hfront (e ▸ hc)
    obtain ⟨rfl, -⟩ := Text.append_inj_of_all hall (Line.all_ne_closing hname) (by simp)
      (by simp) h
    exact .inr ⟨more, (List.append_cons ..).symm⟩
  · exact .inl (Line.bracketed_injective hn hname h).1

/-- In the brackets of a reference, the text stands for the name: whatever blanks are
    before the brackets, and whatever follows them on the line. -/
def Denotes (n : Text) (name : Name) : Prop :=
  ∀ indent trailing, Text.allBlank indent → '\n' ∉ trailing →
    ∃ r, parse? (indent ++ '@' :: '<' :: (n ++ '@' :: '>' :: trailing)) = some r ∧ r.name = name

theorem denotes_of_closing_notMem (hne : name ≠ []) (hclosing : '>' ∉ name) :
    Denotes name (.ofText name) := by
  intro indent trailing hindent htrailing
  exact ⟨⟨indent, .ofText name, trailing⟩,
    parse?_eq_some_iff.2 ⟨name, hindent, hne, hclosing, htrailing, rfl, rfl⟩, rfl⟩

/-- What a line that opens a block of a fragment has in its brackets stands for the name
    of the chunk. -/
theorem denotes_of_opening {before n rest : Text} {o : Opening} (hbefore : Text.allBlank before)
    (hn : '>' ∉ n ∨ '\n' ∉ n)
    (h : Directive.classify (before ++ '@' :: '<' :: (n ++ '@' :: '>' :: rest)) = .opening o)
    (hkind : o.kind = .fragment) : Denotes n o.name := by
  obtain ⟨before', name, gap, space, after, hfills, hname⟩ := Directive.form_of_opening h
  rw [hkind] at hfills
  obtain ⟨⟨hne, hclosing⟩, -⟩ := hfills.proper
  obtain ⟨-, htext⟩ := Text.append_inj_of_all hbefore hfills.blank (startsSolid_bracket _)
    (startsSolid_bracket _) hfills.eq
  injection htext with _ htext
  injection htext with _ htext
  rw [hname]
  rcases eq_or_append_of_bracketed hclosing htext with rfl | ⟨more, rfl⟩
  · exact denotes_of_closing_notMem hne hclosing
  · -- The name ends early, and the rest of what is in the brackets trails the reference.
    intro indent trailing hindent htrailing
    have hmore : '\n' ∉ more := fun hm =>
      hn.resolve_left (by simp [Kind.closing]) (List.mem_append_right _ (by simp [hm]))
    obtain ⟨r, hr, hrname⟩ := denotes_of_closing_notMem hne hclosing indent
      (more ++ '@' :: '>' :: trailing) hindent (by simp [hmore, htrailing])
    exact ⟨r, by simpa [Kind.closing] using hr, hrname⟩

/-- A line that opens a block of a fragment is itself a reference to the chunk. -/
theorem parse?_of_opening {o : Opening} (hline : '\n' ∉ line)
    (h : Directive.classify line = .opening o) (hkind : o.kind = .fragment) :
    ∃ r, parse? line = some r ∧ r.name = o.name := by
  obtain ⟨before, name, gap, space, after, hfills, hname⟩ := Directive.form_of_opening h
  rw [hkind] at hfills
  obtain ⟨⟨hne, hclosing⟩, -⟩ := hfills.proper
  have heq := hfills.eq
  subst heq
  rw [hname]
  refine denotes_of_closing_notMem hne hclosing before _ hfills.blank fun hm => hline ?_
  simp only [Form.text, List.mem_append, List.mem_cons] at hm ⊢
  tauto

end Reference

/-! ## Blocks of a document -/

/-- The numbers of lines are counted from 1. -/
theorem Text.mem_numbered_iff {text line : Text} {number : Nat} :
    (number, line) ∈ numbered text ↔ 0 < number ∧ (lines text)[number - 1]? = some line := by
  simp only [numbered, List.mem_map, Prod.mk.injEq, Prod.exists,
    List.mem_zipIdx_iff_le_and_getElem?_sub]
  constructor
  · rintro ⟨_, _, hline, rfl, rfl⟩
    exact hline
  · intro hline
    exact ⟨line, number, hline, rfl, rfl⟩

/-- A number stands for one line of a text. -/
theorem Text.numbered_injective {text : Text} {number : Nat} {line line' : Text}
    (h : (number, line) ∈ numbered text) (h' : (number, line') ∈ numbered text) :
    line = line' :=
  Option.some.inj ((mem_numbered_iff.1 h).2.symm.trans (mem_numbered_iff.1 h').2)

namespace Document

/-- A block starts at a line that opens it. -/
theorem opening_of_mem_blocks {lines : List (Nat × Text)} {b : Block} (h : b ∈ blocks lines) :
    ∃ line, (b.number, line) ∈ lines ∧ Directive.classify line = .opening b.opening := by
  fun_induction blocks lines with
  | case1 => exact absurd h List.not_mem_nil
  | case2 number line rest o hc inside after ih =>
    rcases List.mem_cons.1 h with rfl | h
    · exact ⟨line, List.mem_cons_self, hc⟩
    · obtain ⟨line', hmem, hc'⟩ := ih h
      have hrest := (List.dropWhile_sublist _).subset (List.mem_of_mem_tail hmem)
      exact ⟨line', List.mem_cons_of_mem _ hrest, hc'⟩
  | case3 number line rest hc ih =>
    obtain ⟨line', hmem, hc'⟩ := ih h
    exact ⟨line', List.mem_cons_of_mem _ hmem, hc'⟩

end Document

namespace Reference

/-- A line is a reference exactly if it is spelled as one, in the only way there is. Lines
    that open blocks of a fragment spell its name as references do: such a line refers to
    the chunk itself, and what it has in its brackets stands for the chunk in all
    references. -/
theorem parse?_iff_fills (line : Text) :
    (∀ r, parse? line = some r ↔ ∃ name, r.Fills line name) ∧
    (∀ r name r' name', Fills line name r → Fills line name' r' → r = r' ∧ name = name') ∧
    (∀ o, '\n' ∉ line → Directive.classify line = .opening o → o.kind = .fragment →
      ∃ r, parse? line = some r ∧ r.name = o.name) ∧
    ∀ before n rest, Text.allBlank before →
      line = before ++ '@' :: '<' :: (n ++ '@' :: '>' :: rest) →
      (∀ o, '>' ∉ n → Directive.classify line = .opening o → o.kind = .fragment →
        Denotes n o.name) ∧
      ∀ text, ∀ b ∈ Document.blocks (Text.numbered text), (b.number, line) ∈ Text.numbered text →
        ∀ name, b.key = ⟨.fragment, name⟩ → Denotes n name := by
  refine ⟨fun r => parse?_eq_some_iff, fun r name r' name' h h' => h.unique h',
    fun o hline h hkind => parse?_of_opening hline h hkind, ?_⟩
  rintro before n rest hbefore rfl
  refine ⟨fun o hn h hkind => denotes_of_opening hbefore (.inl hn) h hkind, ?_⟩
  intro text b hb hline name hkey
  obtain ⟨line, hmem, hopening⟩ := Document.opening_of_mem_blocks hb
  obtain rfl := Text.numbered_injective hline hmem
  -- A line of a document has no line feed, and neither has what is in its brackets.
  have hnewline : '\n' ∉ n := fun h => Text.newline_notMem_of_mem_numbered hline (by simp [h])
  obtain ⟨hkind, rfl⟩ : b.opening.kind = .fragment ∧ b.opening.name = name := Key.eq_iff.1 hkey
  exact denotes_of_opening hbefore (.inr hnewline) hopening hkind

/-- A document that opens a block of a fragment, with blanks and an `@` in its name. -/
def signed : Text := " @< a@b @> = c\n@\n".toList

theorem denotes_signed :
    (1, " @< a@b @> = c".toList) ∈ Text.numbered signed ∧
      Denotes " a@b ".toList (.ofText "a@b".toList) ∧
      ∃ r, parse? " @< a@b @> = c".toList = some r ∧ r.name = .ofText "a@b".toList := by
  have hline : (1, " @< a@b @> = c".toList) ∈ Text.numbered signed := by decide
  have hopening : Directive.classify " @< a@b @> = c".toList =
      .opening ⟨.fragment, .ofText "a@b".toList, .define, ['c']⟩ := by decide
  have hblocks : Document.blocks (Text.numbered signed) =
      [⟨⟨.fragment, .ofText "a@b".toList, .define, ['c']⟩, 1, [], true⟩] := by decide +kernel
  obtain ⟨-, -, hself, hspelled⟩ := parse?_iff_fills " @< a@b @> = c".toList
  obtain ⟨-, hdocument⟩ := hspelled [' '] " a@b ".toList " = c".toList (by decide) (by decide)
  exact ⟨hline, hdocument signed _ (hblocks ▸ List.mem_singleton_self _) hline _ rfl,
    hself _ (by decide) hopening rfl⟩

end Reference

end Tangle
