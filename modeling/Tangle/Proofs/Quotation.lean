import Tangle.Toml.Printer
import Mathlib.Data.List.Basic

/-!
# Texts are read as they were written

Whatever text is written, and in whichever of the ways it is, reading gives the text
back and leaves what follows, as long as no further mark follows (`Toml.Delimits`,
`Toml.string?_renderText`).

* The two readers that know escapes undo them in the same way (`Toml.Unescapes`), so
  what one character is written as is read as that character
  (`Toml.Unescapes.escaped`).
* Where three marks close a text, up to two marks right before them belong to it. So a
  text is followed together with the marks right before it, of which there are at most
  two (`Toml.multiBasic_multiContent`, `Toml.multiLiteral_of_hasRun`).
-/

namespace Tangle.Toml

open Text (unicode?)

/-! ## Characters -/

/-- The code of a control character is read as that character. -/
theorem unicode?_controlCode {c : Char} (h : isControl c) :
    ∃ x y, controlCode c = ['\\', 'u', '0', '0', x, y] ∧ unicode? ['0', '0', x, y] = some c := by
  -- All control characters are small, so the two digits are tried for each number.
  have hall : ∀ n < 128, isControl (Char.ofNat n) →
      unicode? ((controlCode (Char.ofNat n)).drop 2) = some (Char.ofNat n) := by
    decide
  have hlt : c.toNat < 128 := by
    simp [isControl] at h
    omega
  have hc := hall c.toNat hlt
  rw [Char.ofNat_toNat] at hc
  exact ⟨_, _, rfl, hc h⟩

/-- A character that is no control character stands for itself, but for the line feed. -/
theorem isContentChar_of_not_isControl {c : Char} (h : isControl c = false) (hn : c ≠ '\n') :
    isContentChar c := by
  have hn' : c.toNat ≠ 10 := fun h => hn (Char.toNat_inj.1 h)
  simp only [isControl, isContentChar] at h ⊢
  by_cases ht : c = '\t'
  · simp [ht]
  · simp [ht, hn] at h ⊢
    omega

/-- A reader of texts between quotation marks: it knows escapes, and takes other characters
    as they are. -/
structure Unescapes (read : Text → Option (Text × Text)) : Prop where
  /-- A letter after a backslash. -/
  letter : ∀ {x c : Char}, escape? x = some c → ∀ u, read ('\\' :: x :: u) = cons c (read u)
  /-- Four digits after a backslash and a `u`. -/
  code : ∀ x y u, read ('\\' :: 'u' :: '0' :: '0' :: x :: y :: u) =
    cons? (unicode? ['0', '0', x, y]) (read u)
  /-- A character that stands for itself. -/
  content : ∀ {c : Char}, c ≠ '"' → c ≠ '\\' → isContentChar c →
    ∀ u, read (c :: u) = cons c (read u)

theorem unescapes_basic : Unescapes basic where
  letter {x c} h u := by
    rw [escape?.eq_def] at h
    split at h <;> cases h <;> rfl
  code _ _ _ := rfl
  content {c} h1 h2 hc u := by
    rw [basic.eq_def]
    split <;> simp_all

theorem unescapes_multiBasic : Unescapes (multiBasic .text) where
  letter {x c} h u := by
    rw [escape?.eq_def] at h
    split at h <;> cases h <;> rfl
  code _ _ _ := rfl
  content {c} h1 h2 hc u := by
    have h3 : c ≠ '\n' := by
      rintro rfl
      cases hc
    have h4 : c ≠ '\r' := by
      rintro rfl
      cases hc
    rw [multiBasic.eq_def]
    split <;> simp_all

/-- What a character is escaped to is read as that character. -/
theorem Unescapes.escaped {read : Text → Option (Text × Text)} (h : Unescapes read) {c : Char}
    (hquote : c ≠ '"') (hfeed : c ≠ '\n') (u : Text) :
    read (escaped c ++ u) = cons c (read u) := by
  rw [Toml.escaped]
  split_ifs with h1 h2 h3 h4 h5 h6
  · exact h1 ▸ h.letter (x := 'b') rfl u
  · exact h2 ▸ h.letter (x := 't') rfl u
  · exact h3 ▸ h.letter (x := 'f') rfl u
  · exact h4 ▸ h.letter (x := 'r') rfl u
  · exact h5 ▸ h.letter (x := '\\') rfl u
  · obtain ⟨x, y, hcode, hc⟩ := unicode?_controlCode h6
    rw [hcode]
    refine (h.code x y u).trans ?_
    rw [hc]
    rfl
  · exact h.content hquote h5 (isContentChar_of_not_isControl (by simpa using h6) hfeed) u

/-- An escape starts with a backslash; without one, the character stands for itself. -/
theorem escaped_cases (c : Char) :
    (∃ u, escaped c = '\\' :: u) ∨ escaped c = [c] ∧ isControl c = false := by
  rw [escaped]
  split_ifs with h1 h2 h3 h4 h5 h6
  · exact .inl ⟨_, rfl⟩
  · exact .inl ⟨_, rfl⟩
  · exact .inl ⟨_, rfl⟩
  · exact .inl ⟨_, rfl⟩
  · exact .inl ⟨_, rfl⟩
  · exact .inl ⟨_, rfl⟩
  · exact .inr ⟨rfl, by simpa using h6⟩

/-! ## Between single marks -/

/-- The content of a text between quotation marks is read as the text. -/
theorem basic_basicContent (t rest : Text) :
    basic (basicContent t ++ '"' :: rest) = some (t, rest) := by
  have hpiece (c : Char) (u : Text) : basic ((if c = '\n' then "\\n".toList
      else if c = '"' then "\\\"".toList else escaped c) ++ u) = cons c (basic u) := by
    split_ifs with hfeed hquote
    · exact hfeed ▸ unescapes_basic.letter (x := 'n') rfl u
    · exact hquote ▸ unescapes_basic.letter (x := '"') rfl u
    · exact unescapes_basic.escaped hquote hfeed u
  induction t with
  | nil => rfl
  | cons c t ih =>
    rw [basicContent] at ih ⊢
    rw [List.flatMap_cons, List.append_assoc, hpiece, ih]
    rfl

/-- A text without apostrophes and control characters is read as it is. -/
theorem literal_append {t : Text} (hmark : '\x27' ∉ t) (hfeed : '\n' ∉ t)
    (hplain : t.any isControl = false) (rest : Text) :
    literal (t ++ '\x27' :: rest) = some (t, rest) := by
  have hne : ∀ c ∈ t, (c != '\x27') = true := fun c hc =>
    bne_iff_ne.2 fun h => hmark (h ▸ hc)
  have hcontent : t.all isContentChar := by
    refine List.all_eq_true.2 fun c hc => isContentChar_of_not_isControl ?_ fun h => hfeed (h ▸ hc)
    simpa using List.any_eq_false.1 hplain c hc
  rw [literal, List.takeWhile_append_of_pos hne, List.dropWhile_append_of_pos hne]
  simp [hcontent]

/-! ## Between three marks -/

/-- A reader of texts that three marks close. -/
structure Tripled (read : Text → Option (Text × Text)) (mark : Char) : Prop where
  /-- A mark that two others do not follow belongs to the text. -/
  inner : ∀ {x}, (∀ u, x ≠ mark :: mark :: u) → read (mark :: x) = cons mark (read x)
  /-- Up to two marks right before the closing belong to the text. -/
  closing : ∀ {m rest}, m ≤ 2 → rest.head? ≠ some mark →
    read (List.replicate m mark ++ mark :: mark :: mark :: rest) =
      some (List.replicate m mark, rest)

theorem tripled_multiBasic : Tripled (multiBasic .text) '"' where
  inner {x} h := by
    rw [multiBasic]
    · rfl
    all_goals simp_all
  closing {m rest} hm h := by
    have hne : ∀ u, rest ≠ '"' :: u := by
      rintro u rfl
      exact h rfl
    match m with
    | 0 =>
      rw [List.replicate_zero, List.nil_append, multiBasic]
      all_goals simp_all
    | 1 =>
      rw [List.replicate_one, List.singleton_append, multiBasic]
      all_goals simp_all
    | 2 => rfl

theorem tripled_multiLiteral : Tripled multiLiteral '\x27' where
  inner {x} h := by
    rw [multiLiteral]
    · rfl
    all_goals simp_all
  closing {m rest} hm h := by
    have hne : ∀ u, rest ≠ '\x27' :: u := by
      rintro u rfl
      exact h rfl
    match m with
    | 0 =>
      rw [List.replicate_zero, List.nil_append, multiLiteral]
      all_goals simp_all
    | 1 =>
      rw [List.replicate_one, List.singleton_append, multiLiteral]
      all_goals simp_all
    | 2 => rfl

/-- Marks before a text that does not start with one belong to the text, if there are at
    most two. -/
theorem Tripled.marks {read : Text → Option (Text × Text)} {mark : Char} (h : Tripled read mark)
    {m : Nat} (hm : m ≤ 2) {x t rest : Text} (hx : x.head? ≠ some mark)
    (hread : read x = some (t, rest)) :
    read (List.replicate m mark ++ x) = some (List.replicate m mark ++ t, rest) := by
  have hone : read (mark :: x) = some (mark :: t, rest) := by
    rw [h.inner, hread]
    · rfl
    · rintro u rfl
      exact hx rfl
  match m with
  | 0 => exact hread
  | 1 => exact hone
  | 2 =>
    refine (h.inner ?_).trans (congrArg (cons mark) hone)
    intro u hu
    cases hu
    exact hx rfl

/-- The content of a text between three quotation marks is read as the text, together with
    the marks right before it. -/
theorem multiBasic_multiContent {m : Nat} (hm : m ≤ 2) (t : Text) {rest : Text}
    (hrest : rest.head? ≠ some '"') :
    multiBasic .text (List.replicate m '"' ++ (multiContent m t ++ '"' :: '"' :: '"' :: rest)) =
      some (List.replicate m '"' ++ t, rest) := by
  -- The reader looks ahead over marks, so it is followed from the first of those that are
  -- not escaped: there are never more than two of them before a character of the text.
  induction t generalizing m with
  | nil => exact (tripled_multiBasic.closing hm hrest).trans (by rw [List.append_nil])
  | cons c t ih =>
    have hnext : multiBasic .text (multiContent 0 t ++ '"' :: '"' :: '"' :: rest) =
      some (t, rest) := ih (Nat.zero_le 2)
    rw [multiContent]
    split_ifs with hquote hfull hfeed
    · -- The third mark in a row is escaped.
      subst hquote
      refine tripled_multiBasic.marks hm (by simp) ?_
      exact (unescapes_multiBasic.letter (x := '"') rfl _).trans (congrArg (cons _) hnext)
    · subst hquote
      have hmore := ih (m := m + 1) (by omega)
      rw [List.replicate_succ'] at hmore
      simpa using hmore
    · subst hfeed
      refine tripled_multiBasic.marks hm (by simp) ?_
      exact congrArg (cons '\n') hnext
    · refine tripled_multiBasic.marks hm ?_ ?_
      · rcases escaped_cases c with ⟨u, hu⟩ | ⟨hu, -⟩ <;> rw [hu] <;> simp [hquote]
      · rw [List.append_assoc, unescapes_multiBasic.escaped hquote hfeed, hnext]
        rfl

/-- If a run of marks is too short, there is none with fewer marks in front. -/
theorem lt_of_hasRun {c : Char} {n seen : Nat} {t : Text} (h : hasRun c n seen t = false) :
    seen < n := by
  cases t with
  | nil => simpa [hasRun] using h
  | cons d t =>
    rw [hasRun, Bool.or_eq_false_iff] at h
    simpa using h.1

/-- A text without three apostrophes in a row is read as it is, together with the marks
    right before it. -/
theorem multiLiteral_append {m : Nat} {t rest : Text} (hrun : hasRun '\x27' 3 m t = false)
    (hplain : t.any isControl = false) (hrest : rest.head? ≠ some '\x27') :
    multiLiteral (List.replicate m '\x27' ++ (t ++ '\x27' :: '\x27' :: '\x27' :: rest)) =
      some (List.replicate m '\x27' ++ t, rest) := by
  have hm : m ≤ 2 := Nat.le_of_lt_succ (lt_of_hasRun hrun)
  induction t generalizing m with
  | nil => exact (tripled_multiLiteral.closing hm hrest).trans (by rw [List.append_nil])
  | cons c t ih =>
    rw [List.any_cons, Bool.or_eq_false_iff] at hplain
    rw [hasRun, Bool.or_eq_false_iff] at hrun
    by_cases hmark : c = '\x27'
    · subst hmark
      have hmore := ih hrun.2 hplain.2 (Nat.le_of_lt_succ (lt_of_hasRun hrun.2))
      rw [if_pos rfl, List.replicate_succ'] at hmore
      simpa using hmore
    · rw [if_neg hmark] at hrun
      have hnext : multiLiteral (t ++ '\x27' :: '\x27' :: '\x27' :: rest) = some (t, rest) :=
        ih hrun.2 hplain.2 (Nat.zero_le 2)
      refine tripled_multiLiteral.marks hm (by simpa using hmark) ?_
      by_cases hfeed : c = '\n'
      · subst hfeed
        exact congrArg (cons '\n') hnext
      · have hreturn : c ≠ '\r' := by
          rintro rfl
          cases hplain.1
        have hcontent := isContentChar_of_not_isControl hplain.1 hfeed
        rw [List.cons_append, multiLiteral, if_pos hcontent, hnext]
        · rfl
        all_goals simp_all

/-! ## Opening -/

/-- What follows a text: no mark, which could be taken for one of those that close it. -/
def Delimits (rest : Text) : Prop := rest.head? ≠ some '"' ∧ rest.head? ≠ some '\x27'

theorem dropNewline_of_head? {x : Text} (hfeed : x.head? ≠ some '\n')
    (hreturn : x.head? ≠ some '\r') : dropNewline x = x := by
  rw [dropNewline.eq_def]
  split <;> simp_all

/-- The line feed after the opening is that of the writer, if it is one. -/
theorem dropNewline_opening {t x : Text} (hfeed : '\n' ∉ t → x.head? ≠ some '\n')
    (hreturn : '\n' ∉ t → x.head? ≠ some '\r') :
    dropNewline ((if '\n' ∈ t then ['\n'] else []) ++ x) = x := by
  split_ifs with h
  · rfl
  · exact dropNewline_of_head? (hfeed h) (hreturn h)

theorem tripled_append (mark : Char) (t content rest : Text) :
    tripled mark t content ++ rest = mark :: mark :: mark ::
      ((if '\n' ∈ t then ['\n'] else []) ++ (content ++ mark :: mark :: mark :: rest)) := by
  simp [tripled]

/-- A text between three quotation marks is read as it was written. -/
theorem string?_tripled_basic (t : Text) {rest : Text} (hrest : rest.head? ≠ some '"') :
    string? (tripled '"' t (multiContent 0 t) ++ rest) = some (t, rest) := by
  have hhead {c : Char} (hc : c = '\n' ∨ c = '\r') (ht : '\n' ∉ t) :
      (multiContent 0 t ++ '"' :: '"' :: '"' :: rest).head? ≠ some c := by
    cases t with
    | nil => rcases hc with rfl | rfl <;> simp [multiContent]
    | cons d t =>
      have hd : d ≠ '\n' := fun h => ht (h ▸ List.mem_cons_self)
      by_cases hquote : d = '"'
      · rw [multiContent, if_pos hquote]
        rcases hc with rfl | rfl <;> simp
      · rw [multiContent, if_neg hquote, if_neg hd]
        -- A carriage return is escaped.
        rcases escaped_cases d with ⟨u, hu⟩ | ⟨hu, hcontrol⟩
        · rcases hc with rfl | rfl <;> simp [hu]
        · rcases hc with rfl | rfl
          · simpa [hu] using hd
          · rw [hu]
            rintro ⟨⟩
            cases hcontrol
  rw [tripled_append, string?, dropNewline_opening (hhead (.inl rfl)) (hhead (.inr rfl))]
  exact multiBasic_multiContent (Nat.zero_le 2) t hrest

/-- A text between three apostrophes is read as it was written. -/
theorem string?_tripled_literal {t rest : Text} (hrun : hasRun '\x27' 3 0 t = false)
    (hplain : t.any isControl = false) (hrest : rest.head? ≠ some '\x27') :
    string? (tripled '\x27' t t ++ rest) = some (t, rest) := by
  have hhead {c : Char} (hc : c = '\n' ∨ c = '\r') (ht : '\n' ∉ t) :
      (t ++ '\x27' :: '\x27' :: '\x27' :: rest).head? ≠ some c := by
    cases t with
    | nil => rcases hc with rfl | rfl <;> simp
    | cons d t =>
      rintro ⟨⟩
      rcases hc with rfl | rfl
      · exact ht List.mem_cons_self
      · cases (Bool.or_eq_false_iff.1 (List.any_cons ▸ hplain)).1
  rw [tripled_append, string?, dropNewline_opening (hhead (.inl rfl)) (hhead (.inr rfl))]
  exact multiLiteral_append hrun hplain hrest

/-- A text between quotation marks is read as it was written. -/
theorem string?_basic (t : Text) {rest : Text} (hrest : rest.head? ≠ some '"') :
    string? ('"' :: basicContent t ++ ['"'] ++ rest) = some (t, rest) := by
  -- Only the empty text starts with its closing mark, and then no mark follows.
  have hne : ∀ u, basicContent t ++ '"' :: rest ≠ '"' :: '"' :: u := by
    intro u hu
    cases t with
    | nil =>
      cases hu
      exact hrest rfl
    | cons c t =>
      rw [basicContent, List.flatMap_cons] at hu
      split_ifs at hu with hfeed hquote
      · cases hu
      · cases hu
      · rcases escaped_cases c with ⟨v, hv⟩ | ⟨hv, -⟩ <;> rw [hv] at hu
        · cases hu
        · exact hquote (List.cons.inj hu).1
  rw [List.append_assoc, List.singleton_append, List.cons_append, string?]
  · exact basic_basicContent t rest
  · exact hne

/-- A text between apostrophes is read as it was written. -/
theorem string?_literal {t rest : Text} (hmark : '\x27' ∉ t) (hfeed : '\n' ∉ t)
    (hplain : t.any isControl = false) (hrest : rest.head? ≠ some '\x27') :
    string? ('\x27' :: t ++ ['\x27'] ++ rest) = some (t, rest) := by
  have hne : ∀ u, t ++ '\x27' :: rest ≠ '\x27' :: '\x27' :: u := by
    intro u hu
    cases t with
    | nil =>
      cases hu
      exact hrest rfl
    | cons c t => exact hmark ((List.cons.inj hu).1 ▸ List.mem_cons_self)
  rw [List.append_assoc, List.singleton_append, List.cons_append, string?]
  · exact literal_append hmark hfeed hplain rest
  · exact hne

/-- A text is read as it was written. -/
theorem string?_renderText (t : Text) {rest : Text} (hrest : Delimits rest) :
    string? (renderText t ++ rest) = some (t, rest) := by
  obtain ⟨hquote, hmark⟩ := hrest
  rw [renderText]
  split_ifs with h1 h2 h3 h4 h5
  · exact string?_basic t hquote
  · rw [Bool.and_eq_true] at h2
    have hnone : ∀ c ∈ t, c ≠ '\x27' ∧ c ≠ '\n' := by simpa using h2.2
    exact string?_literal (fun h => (hnone _ h).1 rfl) (fun h => (hnone _ h).2 rfl)
      (by simpa using h2.1) hmark
  · exact string?_tripled_basic t hquote
  · rw [Bool.and_eq_true] at h4
    exact string?_tripled_literal (by simpa using h4.2) (by simpa using h4.1) hmark
  · exact string?_tripled_basic t hquote
  · exact string?_basic t hquote

end Tangle.Toml
