import Tangle.Line.Directive
import Mathlib.Data.List.TakeWhile

/-!
# How directives are written

A directive has a *form*: its parts in the order in which they are written, with the
blanks between them (`Form`). The text of a form is put together from its parts
(`Form.text`), and a line is a directive if it is the text of a form that is *proper*
(`Form.Proper`), after blanks.

The readers of a line look for its parts from left to right, and each of them takes
as much as it can. This loses no form and invents none:

* what each reader accepts is said by an equivalence (`Line.bracketed?_eq_some_iff`,
  `Directive.operator?_eq_some_iff`, `Directive.tag?_eq_some_iff`, and so on);
* a line has at most one form (`Form.Fills.unique`), so no two rules fit the same line
  and it does not matter which one is tried first;
* a line is classified as what its form says, and as text if it has none
  (`Directive.classify_iff_form`).
-/

namespace Tangle

/-! ## Cutting a text where a class of characters ends -/

namespace Text

section Spans

variable {p : Char → Bool} {a a' b b' : Text}

theorem takeWhile_append_eq (ha : a.all p) (hb : ∀ c ∈ b.head?, p c = false) :
    (a ++ b).takeWhile p = a := by
  have hnil : b.takeWhile p = [] := by
    cases b with
    | nil => rfl
    | cons c b => simp [hb c rfl]
  rw [List.takeWhile_append_of_pos (List.all_eq_true.1 ha), hnil, List.append_nil]

theorem dropWhile_append_eq (ha : a.all p) (hb : ∀ c ∈ b.head?, p c = false) :
    (a ++ b).dropWhile p = b := by
  have hself : b.dropWhile p = b := by
    cases b with
    | nil => rfl
    | cons c b => simp [hb c rfl]
  rw [List.dropWhile_append_of_pos (List.all_eq_true.1 ha), hself]

/-- A text is cut in one way into characters of a class and a rest that starts with
    none. -/
theorem append_inj_of_all (ha : a.all p) (ha' : a'.all p) (hb : ∀ c ∈ b.head?, p c = false)
    (hb' : ∀ c ∈ b'.head?, p c = false) (h : a ++ b = a' ++ b') : a = a' ∧ b = b' := by
  constructor
  · rw [← takeWhile_append_eq ha hb, h, takeWhile_append_eq ha' hb']
  · rw [← dropWhile_append_eq ha hb, h, dropWhile_append_eq ha' hb']

end Spans

/-- The text does not start with a blank. -/
def StartsSolid (t : Text) : Prop := ∀ c ∈ t.head?, isBlank c = false

instance (t : Text) : Decidable t.StartsSolid :=
  inferInstanceAs (Decidable (∀ c ∈ t.head?, isBlank c = false))

theorem startsSolid_cons {c : Char} (h : isBlank c = false) (t : Text) : StartsSolid (c :: t) := by
  simpa [StartsSolid] using h

theorem startsSolid_trimStart (t : Text) : StartsSolid (trimStart t) := by
  rcases trimStart_eq_nil_or_cons t with h | ⟨c, r, hc, h⟩
  · simp [h, StartsSolid]
  · rw [h]
    exact startsSolid_cons hc r

theorem allBlank_takeWhile (t : Text) : allBlank (t.takeWhile isBlank) := List.all_takeWhile

theorem head?_of_allBlank {t : Text} (h : allBlank t) :
    ∀ c ∈ t.head?, (!isBlank c) = false := by
  intro c hc
  simpa using List.all_eq_true.1 h c (List.mem_of_mem_head? hc)

/-- A text is cut in one way into blanks and a rest that starts with none. -/
theorem eq_append_iff {t blanks rest : Text} (h : StartsSolid rest) :
    (allBlank blanks ∧ t = blanks ++ rest) ↔
      blanks = t.takeWhile isBlank ∧ trimStart t = rest := by
  constructor
  · rintro ⟨hblanks, rfl⟩
    exact ⟨(takeWhile_append_eq hblanks h).symm, dropWhile_append_eq hblanks h⟩
  · rintro ⟨rfl, rfl⟩
    exact ⟨allBlank_takeWhile t, List.takeWhile_append_dropWhile.symm⟩

theorem trimStart_append {blanks rest : Text} (hb : allBlank blanks) (h : StartsSolid rest) :
    trimStart (blanks ++ rest) = rest := dropWhile_append_eq hb h

end Text

/-! ## Readers of the parts -/

namespace Line

variable {kind : Kind} {t name rest : Text}

theorem name_of_bracketed? (h : bracketed? kind t = some (name, rest)) :
    name ≠ [] ∧ kind.closing ∉ name := by
  unfold bracketed? at h
  split at h
  · split at h
    · dsimp only at h
      split at h
      · split at h
        · rename_i hname
          cases h
          refine ⟨hname.2, fun hmem => ?_⟩
          have := List.mem_takeWhile_imp (List.dropLast_subset _ hmem)
          simp at this
        · cases h
      · cases h
    · cases h
  · cases h

theorem all_ne_closing (h : kind.closing ∉ name) : (name ++ ['@']).all (· != kind.closing) := by
  have hat : '@' ≠ kind.closing := by cases kind <;> decide
  simpa [hat] using fun c hc (e : c = kind.closing) => h (e ▸ hc)

/-- A name in brackets is read exactly if it is not empty and does not have the closing
    character. -/
theorem bracketed?_eq_some_iff :
    bracketed? kind t = some (name, rest) ↔
      name ≠ [] ∧ kind.closing ∉ name ∧
        t = '@' :: kind.opening :: (name ++ '@' :: kind.closing :: rest) := by
  constructor
  · intro h
    obtain ⟨hname, hclosing⟩ := name_of_bracketed? h
    exact ⟨hname, hclosing, eq_of_bracketed? h⟩
  · rintro ⟨hname, hclosing, rfl⟩
    -- The first closing character is the one after the name.
    have hhead : ∀ c ∈ (kind.closing :: rest).head?, (c != kind.closing) = false := by simp
    have htake := Text.takeWhile_append_eq (all_ne_closing hclosing) hhead
    have hdrop := Text.dropWhile_append_eq (all_ne_closing hclosing) hhead
    rw [← List.append_cons] at htake hdrop
    simp [bracketed?, htake, hdrop, hname]

/-- A name in brackets ends in one place. -/
theorem bracketed_injective {name' rest' : Text} (hname : kind.closing ∉ name)
    (hname' : kind.closing ∉ name')
    (h : name ++ '@' :: kind.closing :: rest = name' ++ '@' :: kind.closing :: rest') :
    name = name' ∧ rest = rest' := by
  rw [List.append_cons, List.append_cons name'] at h
  obtain ⟨hl, hr⟩ := Text.append_inj_of_all (all_ne_closing hname) (all_ne_closing hname')
    (by simp) (by simp) h
  exact ⟨List.append_cancel_right hl, List.tail_eq_of_cons_eq hr⟩

end Line

namespace Directive

variable {t : Text}

@[simp]
theorem toList_text_define : Operator.define.text.toList = ['='] := rfl

@[simp]
theorem toList_text_extend : Operator.extend.text.toList = ['=', '+'] := rfl

/-- An operator is read exactly if it is written, where `=` must not go on with `+`. -/
theorem operator?_eq_some_iff {operator : Operator} {rest : Text} :
    operator? t = some (operator, rest) ↔
      t = operator.text.toList ++ rest ∧ (operator = .define → rest.head? ≠ some '+') := by
  constructor
  · intro h
    unfold operator? at h
    split at h
    · cases h
      simp
    · rename_i hplus
      cases h
      refine ⟨rfl, fun _ hhead => ?_⟩
      obtain ⟨more, rfl⟩ := List.head?_eq_some_iff.1 hhead
      exact hplus more rfl
    · cases h
  · rintro ⟨rfl, hplus⟩
    cases operator with
    | extend => rfl
    | define =>
      rw [toList_text_define, List.singleton_append, operator?]
      rintro more rfl
      exact hplus rfl rfl

/-- What follows a line's operator tells where the operator ends. -/
theorem operator_injective {operator operator' : Operator} {rest rest' : Text}
    (hrest : rest.head? ≠ some '+') (hrest' : rest'.head? ≠ some '+')
    (h : operator.text.toList ++ rest = operator'.text.toList ++ rest') :
    operator = operator' ∧ rest = rest' := by
  have hread := operator?_eq_some_iff.2 ⟨h, fun _ => hrest'⟩
  rw [operator?_eq_some_iff.2 ⟨rfl, fun _ => hrest⟩] at hread
  simpa using hread

/-- A text that may be the tag of a language: it has characters but no blanks, and does
    not start with `+`. -/
structure IsTag (tag : Text) : Prop where
  ne_nil : tag ≠ []
  solid : ∀ c ∈ tag, Text.isBlank c = false
  plus : tag.head? ≠ some '+'

theorem IsTag.all {tag : Text} (h : IsTag tag) : tag.all fun c => !Text.isBlank c := by
  simpa using h.solid

theorem IsTag.startsSolid {tag : Text} (h : IsTag tag) (after : Text) :
    Text.StartsSolid (tag ++ after) := by
  obtain ⟨c, r, rfl⟩ := List.exists_cons_of_ne_nil h.ne_nil
  exact Text.startsSolid_cons (h.solid c List.mem_cons_self) _

/-- A tag is read exactly if it stands between blanks. -/
theorem tag?_eq_some_iff {tag : Text} :
    tag? t = some tag ↔
      IsTag tag ∧ ∃ gap after, Text.allBlank gap ∧ Text.allBlank after ∧
        t = gap ++ (tag ++ after) := by
  constructor
  · intro h
    unfold tag? at h
    dsimp only at h
    split at h
    · rename_i htag
      cases h
      refine ⟨⟨htag.1, fun c hc => ?_, htag.2.1⟩, t.takeWhile Text.isBlank, _,
        Text.allBlank_takeWhile t, htag.2.2, ?_⟩
      · simpa using List.mem_takeWhile_imp hc
      · rw [List.takeWhile_append_dropWhile]
        exact List.takeWhile_append_dropWhile.symm
    · cases h
  · rintro ⟨htag, gap, after, hgap, hafter, rfl⟩
    rw [tag?, Text.trimStart_append hgap (htag.startsSolid after)]
    simp only [Text.takeWhile_append_eq htag.all (Text.head?_of_allBlank hafter),
      Text.dropWhile_append_eq htag.all (Text.head?_of_allBlank hafter)]
    rw [if_pos ⟨htag.ne_nil, htag.plus, hafter⟩]

end Directive

/-! ## Forms -/

/-- A directive as it is written, part by part, after the blanks in front of it. -/
inductive Form
  /-- `@`, with blanks after it. -/
  | closing (after : Text)
  /-- `@shebang`, with the shebang after blanks. -/
  | shebang (gap given : Text)
  /-- A name in the brackets of its kind, an operator and a tag, with blanks before the
      operator, before the tag and after it. -/
  | opening (kind : Kind) (name gap : Text) (operator : Operator) (space tag after : Text)
deriving DecidableEq

namespace Form

/-- The parts of a form, one after the other. -/
def text : Form → Text
  | closing after => '@' :: after
  | shebang gap given => ['@', 's', 'h', 'e', 'b', 'a', 'n', 'g'] ++ (gap ++ given)
  | opening kind name gap operator space tag after =>
    '@' :: kind.opening :: (name ++ '@' :: kind.closing ::
      (gap ++ (operator.text.toList ++ (space ++ (tag ++ after)))))

/-- Every part of the form is what may stand there. -/
def Proper : Form → Prop
  | closing after => Text.allBlank after
  | shebang gap given => Text.allBlank gap ∧ '\n' ∉ given ∧ given.StartsSolid
  | opening kind name gap _ space tag after =>
    (name ≠ [] ∧ kind.closing ∉ name) ∧ Directive.IsTag tag ∧
      Text.allBlank gap ∧ Text.allBlank space ∧ Text.allBlank after

/-- What the form says. -/
def directive : Form → Directive
  | closing _ => .closing
  | shebang _ given => .shebang (Text.trimEnd given)
  | opening kind name _ operator _ tag _ => .opening ⟨kind, .ofText name, operator, tag⟩

/-- The line is written in the form, after blanks. -/
structure Fills (line before : Text) (f : Form) : Prop where
  blank : Text.allBlank before
  proper : f.Proper
  eq : line = before ++ f.text

theorem startsSolid_text (f : Form) : f.text.StartsSolid := by
  cases f <;> exact Text.startsSolid_cons (by decide) _

variable {line before before' : Text} {f f' : Form}

/-- A line is written in a form exactly if that is the text of the form without the
    leading blanks. -/
theorem fills_iff :
    Fills line before f ↔
      f.Proper ∧ before = line.takeWhile Text.isBlank ∧ Text.trimStart line = f.text := by
  rw [← Text.eq_append_iff f.startsSolid_text]
  exact ⟨fun h => ⟨h.proper, h.blank, h.eq⟩, fun h => ⟨h.2.1, h.1, h.2.2⟩⟩

/-- What follows an operator does not start with `+`. -/
theorem head?_ne_plus {space tag after : Text} (hspace : Text.allBlank space)
    (htag : Directive.IsTag tag) : (space ++ (tag ++ after)).head? ≠ some '+' := by
  cases space with
  | nil =>
    obtain ⟨c, r, rfl⟩ := List.exists_cons_of_ne_nil htag.ne_nil
    simpa using htag.plus
  | cons c space =>
    rintro hc
    obtain rfl : c = '+' := by simpa using hc
    simp [Text.allBlank, Text.isBlank] at hspace

theorem startsSolid_operator (operator : Operator) (rest : Text) :
    Text.StartsSolid (operator.text.toList ++ rest) := by
  cases operator <;> exact Text.startsSolid_cons (by decide) _

/-! ## A line has one form -/

/-- Forms of lines that open a block are told apart by their texts. -/
theorem opening_injective {kind kind' : Kind} {operator operator' : Operator}
    {name name' gap gap' space space' tag tag' after after' : Text}
    (hf : (opening kind name gap operator space tag after).Proper)
    (hf' : (opening kind' name' gap' operator' space' tag' after').Proper)
    (h : (opening kind name gap operator space tag after).text =
      (opening kind' name' gap' operator' space' tag' after').text) :
    opening kind name gap operator space tag after =
      opening kind' name' gap' operator' space' tag' after' := by
  obtain ⟨hname, htag, hgap, hspace, hafter⟩ := hf
  obtain ⟨hname', htag', hgap', hspace', hafter'⟩ := hf'
  simp only [text, List.cons.injEq, true_and] at h
  obtain ⟨hkind, h⟩ := h
  obtain rfl : kind = kind' := by
    cases kind <;> cases kind' <;> first | rfl | cases hkind
  -- From left to right, each part ends where the same part of the other form does.
  obtain ⟨rfl, hrest⟩ := Line.bracketed_injective hname.2 hname'.2 h
  obtain ⟨rfl, hsigned⟩ := Text.append_inj_of_all hgap hgap' (startsSolid_operator _ _)
    (startsSolid_operator _ _) hrest
  obtain ⟨rfl, hspaced⟩ := Directive.operator_injective (head?_ne_plus hspace htag)
    (head?_ne_plus hspace' htag') hsigned
  obtain ⟨rfl, htagged⟩ := Text.append_inj_of_all hspace hspace' (htag.startsSolid _)
    (htag'.startsSolid _) hspaced
  obtain ⟨rfl, rfl⟩ := Text.append_inj_of_all htag.all htag'.all (Text.head?_of_allBlank hafter)
    (Text.head?_of_allBlank hafter') htagged
  rfl

/-- A form starts with `@` and a character that tells the rules apart. -/
theorem text_injective (hf : f.Proper) (hf' : f'.Proper) (h : f.text = f'.text) : f = f' := by
  cases f with
  | closing after =>
    cases f' with
    | closing after' => simpa [text] using h
    | shebang gap' given' =>
      obtain rfl : after = _ := List.tail_eq_of_cons_eq h
      simp [Proper, Text.allBlank, Text.isBlank] at hf
    | opening kind' name' gap' operator' space' tag' after' =>
      obtain rfl : after = _ := List.tail_eq_of_cons_eq h
      cases kind' <;> simp [Proper, Text.allBlank, Text.isBlank, Kind.opening] at hf
  | shebang gap given =>
    cases f' with
    | closing after' =>
      obtain rfl : _ = after' := List.tail_eq_of_cons_eq h
      simp [Proper, Text.allBlank, Text.isBlank] at hf'
    | shebang gap' given' =>
      obtain ⟨rfl, rfl⟩ := Text.append_inj_of_all hf.1 hf'.1 hf.2.2 hf'.2.2
        (List.append_cancel_left h)
      rfl
    | opening kind' name' gap' operator' space' tag' after' =>
      cases kind' <;> simp [text, Kind.opening] at h
  | opening kind name gap operator space tag after =>
    cases f' with
    | closing after' =>
      obtain rfl : _ = after' := List.tail_eq_of_cons_eq h
      cases kind <;> simp [Proper, Text.allBlank, Text.isBlank, Kind.opening] at hf'
    | shebang gap' given' => cases kind <;> simp [text, Kind.opening] at h
    | opening kind' name' gap' operator' space' tag' after' => exact opening_injective hf hf' h

/-- A line is written in one form at most. -/
theorem Fills.unique (h : Fills line before f) (h' : Fills line before' f') :
    before = before' ∧ f = f' := by
  obtain ⟨hf, hbefore, htext⟩ := fills_iff.1 h
  obtain ⟨hf', hbefore', htext'⟩ := fills_iff.1 h'
  exact ⟨hbefore.trans hbefore'.symm, text_injective hf hf' (htext.symm.trans htext')⟩

end Form

/-! ## The rules -/

namespace Directive

variable {t line : Text} {d : Directive}

theorem isClosing_iff :
    isClosing t ↔ ∃ after, (Form.closing after).Proper ∧ t = (Form.closing after).text := by
  constructor
  · intro h
    unfold isClosing at h
    split at h
    · exact ⟨_, h, rfl⟩
    · cases h
  · rintro ⟨after, hafter, rfl⟩
    exact hafter

theorem shebang?_eq_some_iff {given : Text} :
    shebang? t = some given ↔ ∃ gap full, (Form.shebang gap full).Proper ∧
      t = (Form.shebang gap full).text ∧ given = Text.trimEnd full := by
  constructor
  · intro h
    unfold shebang? at h
    split at h
    · rename_i rest
      dsimp only at h
      split at h
      · cases h
      · cases h
        refine ⟨rest.takeWhile Text.isBlank, Text.trimStart rest,
          ⟨Text.allBlank_takeWhile rest, ‹_›, Text.startsSolid_trimStart rest⟩, ?_, rfl⟩
        rw [Form.text, Text.trimStart, List.takeWhile_append_dropWhile]
        rfl
    · cases h
  · rintro ⟨gap, full, ⟨hgap, hline, hsolid⟩, rfl, rfl⟩
    simp [Form.text, shebang?, Text.trimStart_append hgap hsolid, hline]

theorem opening?_eq_some_iff {kind : Kind} {o : Opening} :
    opening? kind t = some o ↔ ∃ name gap operator space tag after,
      (Form.opening kind name gap operator space tag after).Proper ∧
        t = (Form.opening kind name gap operator space tag after).text ∧
        o = ⟨kind, .ofText name, operator, tag⟩ := by
  constructor
  · intro h
    simp only [opening?, Option.bind_eq_bind, Option.bind_eq_some_iff, Option.pure_def,
      Option.some.injEq, Prod.exists] at h
    obtain ⟨name, rest, hname, operator, rest', hoperator, tag, htag, rfl⟩ := h
    obtain ⟨hne, hclosing, rfl⟩ := Line.bracketed?_eq_some_iff.1 hname
    obtain ⟨hrest, -⟩ := operator?_eq_some_iff.1 hoperator
    obtain ⟨hproper, space, after, hspace, hafter, rfl⟩ := tag?_eq_some_iff.1 htag
    refine ⟨name, rest.takeWhile Text.isBlank, operator, space, tag, after,
      ⟨⟨hne, hclosing⟩, hproper, Text.allBlank_takeWhile rest, hspace, hafter⟩, ?_, rfl⟩
    rw [Form.text, ← hrest, Text.trimStart, List.takeWhile_append_dropWhile]
  · rintro ⟨name, gap, operator, space, tag, after, ⟨hname, htag, hgap, hspace, hafter⟩, rfl, rfl⟩
    have hoperator : operator? (operator.text.toList ++ (space ++ (tag ++ after))) =
        some (operator, space ++ (tag ++ after)) :=
      operator?_eq_some_iff.2 ⟨rfl, fun _ => Form.head?_ne_plus hspace htag⟩
    have htagged : tag? (space ++ (tag ++ after)) = some tag :=
      tag?_eq_some_iff.2 ⟨htag, space, after, hspace, hafter, rfl⟩
    rw [opening?, Form.text, Line.bracketed?_eq_some_iff.2 ⟨hname.1, hname.2, rfl⟩]
    simp [Text.trimStart_append hgap (Form.startsSolid_operator _ _), hoperator, htagged]

/-- The rules of a line. Each says what the line is if it fits. -/
def rules : List (Text → Option Directive) :=
  [ fun line => if isClosing (Text.trimStart line) then some .closing else none,
    fun line => (shebang? (Text.trimStart line)).map .shebang,
    fun line => (opening? .fragment (Text.trimStart line)).map .opening,
    fun line => (opening? .file (Text.trimStart line)).map .opening ]

/-- A line is what the first rule that fits says, or else text. -/
theorem classify_eq_findSome? (line : Text) :
    classify line = (rules.findSome? (· line)).getD .text := by
  simp only [classify, rules, List.findSome?]
  split
  · rfl
  · cases shebang? (Text.trimStart line) with
    | some given => rfl
    | none =>
      cases opening? .fragment (Text.trimStart line) with
      | some o => rfl
      | none => cases opening? .file (Text.trimStart line) <;> rfl

/-- The rules that fit a line say what its form says. -/
theorem exists_rule_iff :
    (∃ rule ∈ rules, rule line = some d) ↔
      ∃ before f, Form.Fills line before f ∧ f.directive = d := by
  constructor
  · rintro ⟨rule, hrule, h⟩
    suffices hform : ∃ f : Form, f.Proper ∧ Text.trimStart line = f.text ∧ f.directive = d by
      obtain ⟨f, hproper, htext, hd⟩ := hform
      exact ⟨_, f, Form.fills_iff.2 ⟨hproper, rfl, htext⟩, hd⟩
    simp only [rules, List.mem_cons, List.not_mem_nil, or_false] at hrule
    rcases hrule with rfl | rfl | rfl | rfl
    · obtain ⟨hclosing, rfl⟩ : isClosing (Text.trimStart line) ∧ .closing = d := by simpa using h
      obtain ⟨after, hproper, htext⟩ := isClosing_iff.1 hclosing
      exact ⟨_, hproper, htext, rfl⟩
    · obtain ⟨given, hgiven, rfl⟩ := Option.map_eq_some_iff.1 h
      obtain ⟨gap, full, hproper, htext, rfl⟩ := shebang?_eq_some_iff.1 hgiven
      exact ⟨_, hproper, htext, rfl⟩
    all_goals
      obtain ⟨o, ho, rfl⟩ := Option.map_eq_some_iff.1 h
      obtain ⟨name, gap, operator, space, tag, after, hproper, htext, rfl⟩ :=
        opening?_eq_some_iff.1 ho
      exact ⟨_, hproper, htext, rfl⟩
  · rintro ⟨before, f, hfills, rfl⟩
    obtain ⟨hproper, -, htext⟩ := Form.fills_iff.1 hfills
    cases f with
    | closing after =>
      exact ⟨_, .head _, if_pos (isClosing_iff.2 ⟨after, hproper, htext⟩)⟩
    | shebang gap full =>
      exact ⟨_, .tail _ (.head _), Option.map_eq_some_iff.2
        ⟨_, shebang?_eq_some_iff.2 ⟨gap, full, hproper, htext, rfl⟩, rfl⟩⟩
    | opening kind name gap operator space tag after =>
      have ho := opening?_eq_some_iff.2
        ⟨name, gap, operator, space, tag, after, hproper, htext, rfl⟩
      cases kind
      · exact ⟨_, .tail _ (.tail _ (.head _)), Option.map_eq_some_iff.2 ⟨_, ho, rfl⟩⟩
      · exact ⟨_, .tail _ (.tail _ (.tail _ (.head _))), Option.map_eq_some_iff.2 ⟨_, ho, rfl⟩⟩

/-- In whatever order the rules are tried, the first one that fits says what the form of
    the line says. -/
theorem findSome?_eq_some_iff {order : List (Text → Option Directive)} (h : order.Perm rules) :
    order.findSome? (· line) = some d ↔ ∃ before f, Form.Fills line before f ∧ f.directive = d := by
  have hmem {d : Directive} : (∃ rule ∈ order, rule line = some d) ↔
      ∃ before f, Form.Fills line before f ∧ f.directive = d := by
    rw [← exists_rule_iff]
    exact exists_congr fun rule => and_congr_left fun _ => h.mem_iff
  constructor
  · intro hd
    exact hmem.1 (List.exists_of_findSome?_eq_some hd)
  · rintro hform
    obtain ⟨rule, hrule, hfits⟩ := hmem.2 hform
    cases hfound : order.findSome? (· line) with
    | none => simp [List.findSome?_eq_none_iff.1 hfound rule hrule] at hfits
    | some d' =>
      -- Whatever rule is the first, it goes by the only form that there is.
      obtain ⟨before, f, hf, rfl⟩ := hform
      obtain ⟨before', f', hf', rfl⟩ := hmem.1 (List.exists_of_findSome?_eq_some hfound)
      rw [(hf.unique hf').2]

theorem findSome?_eq_none_iff {order : List (Text → Option Directive)} (h : order.Perm rules) :
    order.findSome? (· line) = none ↔ ∀ before f, ¬Form.Fills line before f := by
  rw [Option.eq_none_iff_forall_ne_some]
  simp only [ne_eq, findSome?_eq_some_iff h]
  exact ⟨fun hno before f hf => hno _ ⟨before, f, hf, rfl⟩,
    fun hno d ⟨before, f, hf, _⟩ => hno before f hf⟩

/-- A line is what its form says, or text if it has none. -/
theorem classify_eq_iff :
    classify line = d ↔
      (∃ before f, Form.Fills line before f ∧ f.directive = d) ∨
        d = .text ∧ ∀ before f, ¬Form.Fills line before f := by
  rw [classify_eq_findSome?, ← findSome?_eq_some_iff (.refl _),
    ← findSome?_eq_none_iff (.refl _)]
  cases rules.findSome? (· line) <;> simp [eq_comm]

/-- A line that opens a block has the form of one. -/
theorem form_of_opening {o : Opening} (h : classify line = .opening o) :
    ∃ before name gap space after,
      Form.Fills line before (.opening o.kind name gap o.operator space o.language after) ∧
        o.name = .ofText name := by
  rcases classify_eq_iff.1 h with ⟨before, f, hf, hd⟩ | ⟨hd, -⟩
  · cases f with
    | closing | shebang => cases hd
    | opening kind name gap operator space tag after =>
      cases hd
      exact ⟨before, name, gap, space, after, hf, rfl⟩
  · cases hd

end Directive

end Tangle
