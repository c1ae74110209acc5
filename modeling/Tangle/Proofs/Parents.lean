import Tangle.Proofs.Confinement
import Tangle.Proofs.Relative
import Mathlib.Data.List.Infix
import Mathlib.Data.List.TakeWhile

/-!
# Parents of a path

The parent of a path is told by what the path means. It has all components but the last, and
it is written as the path is, up to a place where nothing more can be left off without
losing a component (`Path.IsParent`). There is exactly one such path, unless the path is the
root directory or empty; and it is what `Path.parent?` finds piece by piece
(`Path.parent?_eq_some_iff`, `Path.parent?_eq_none_iff`).

A path, its parent, the parent of that, and so on, are an *ascent* (`Path.Ascent`). Each path
of it has one component less than the one before, so it ends: at the root directory for an
absolute path, and at the empty path for any other. There is one ascent from every path,
its ancestors (`Path.ascent_iff`), and their number is that of the components, where the
empty path counts as well (`Path.length_ancestors`).
-/

namespace Tangle.Path

variable {p q : Path}

/-! ## Leads and pieces -/

/-- Fewer pieces are written as a beginning. -/
theorem unsplit_isPrefix {ps qs : List Text} (h : ps <+: qs) : unsplit ps <+: unsplit qs := by
  obtain ⟨rest, rfl⟩ := h
  induction ps with
  | nil => exact List.nil_prefix
  | cons piece more ih =>
    cases more with
    | nil =>
      rcases unsplit_cons piece rest with h | h
      · exact ⟨[], (List.append_nil _).trans h.symm⟩
      · exact ⟨_, h.symm⟩
    | cons next more =>
      rw [List.cons_append, unsplit, unsplit, Text.joinWith_cons piece (List.cons_ne_nil _ _),
        Text.joinWith_cons piece (by simp)]
      exact (List.prefix_append_right_inj _).2 ih

/-- A lead is written in one way. -/
theorem lead_cases (p : Path) :
    (p.lead = some .root ∧ p.leadText = ['/']) ∨ (p.lead = some .current ∧ p.leadText = ['.']) ∨
      (p.lead = none ∧ p.leadText = []) := by
  rw [leadText, lead]
  split <;> simp [*]

theorem leadText_of_lead_eq (h : p.lead = q.lead) : p.leadText = q.leadText := by
  rcases p.lead_cases with hp | hp | hp <;> rcases q.lead_cases with hq | hq | hq <;> simp_all

/-- A path is known by its lead and its pieces. -/
theorem ext_lead_pieces (hlead : p.lead = q.lead) (hpieces : p.pieces = q.pieces) : p = q := by
  have htext : p.text = q.text := by
    rw [← p.leadText_append_pieces, ← q.leadText_append_pieces, leadText_of_lead_eq hlead, hpieces]
  exact congrArg Path.mk htext

/-- The lead is found among the components. -/
theorem head?_filter_components (p : Path) :
    (p.components.filter fun c => c = .root ∨ c = .current).head? = p.lead := by
  have hsteps : ((steps p.text).filter fun c => c = .root ∨ c = .current) = [] := by
    refine List.filter_eq_nil_iff.2 fun c hc => ?_
    rw [decide_eq_true_eq]
    rintro (rfl | rfl)
    · exact root_notMem_steps p.text hc
    · exact current_notMem_steps p.text hc
  rw [components_eq, List.filter_append, hsteps, List.append_nil]
  rcases p.lead_cases with h | h | h <;> rw [h.1] <;> rfl

theorem components_leadText (p : Path) : components ⟨p.leadText⟩ = p.lead.toList := by
  rcases p.lead_cases with h | h | h <;> rw [h.1, h.2] <;> rfl

/-- After a first `.` comes a separator, if anything, so the first piece is empty. -/
theorem pieces_of_lead_eq_current (h : p.lead = some .current) : ∃ more, p.pieces = [] :: more := by
  obtain ⟨-, hnext⟩ : p.text.head? = some '.' ∧ (p.text.drop 1).headD '/' = '/' := by
    have hlead := p.lead_eq
    rw [h] at hlead
    split_ifs at hlead with hroot hcurrent
    · cases hlead
    · exact hcurrent
  rw [pieces, h]
  cases hdrop : p.text.drop 1 with
  | nil => exact ⟨[], by simp [hdrop, Text.split]⟩
  | cons c rest =>
    obtain rfl : c = '/' := by simpa [hdrop] using hnext
    exact ⟨Text.split '/' rest, by simp [hdrop, Text.split]⟩

/-- A lead and pieces that come after it are found again when they are written. -/
theorem lead_front {front rest : List Text} (h : p.pieces = front ++ rest) (hne : front ≠ []) :
    lead ⟨p.leadText ++ unsplit front⟩ = p.lead := by
  obtain ⟨first, more, rfl⟩ := List.exists_cons_of_ne_nil hne
  rcases p.lead_cases with ⟨hl, ht⟩ | ⟨hl, ht⟩ | ⟨hl, ht⟩
  · rw [hl, ht]
    rfl
  · obtain ⟨others, ho⟩ := pieces_of_lead_eq_current hl
    obtain rfl : first = [] := (List.cons.inj (h.symm.trans ho)).1
    rw [hl, ht]
    rcases unsplit_cons [] more with hu | hu <;> rw [hu] <;> rfl
  · rw [hl, ht, List.nil_append]
    by_cases hp : p.text = []
    · -- The only piece of the empty path is empty.
      have hsplit : p.pieces = [[]] := by
        rw [pieces, hl, hp]
        rfl
      obtain ⟨rfl, hmore⟩ := List.cons.inj (h.symm.trans hsplit)
      rw [(List.append_eq_nil_iff.1 hmore).1]
      rfl
    · obtain ⟨piece, others, ho, hc⟩ := pieces_of_lead_eq_none hl hp
      obtain rfl : first = piece := (List.cons.inj (h.symm.trans ho)).1
      have hmem : first ∈ p.pieces := ho ▸ List.mem_cons_self
      exact lead_unsplit hc (separator_notMem_of_mem_pieces hmem) more

theorem pieces_front {front rest : List Text} (h : p.pieces = front ++ rest) (hne : front ≠ []) :
    pieces ⟨p.leadText ++ unsplit front⟩ = front := by
  have hlead := lead_front h hne
  have hlen : p.leadText.length = p.lead.toList.length := by
    rcases p.lead_cases with hl | hl | hl <;> rw [hl.1, hl.2] <;> rfl
  have hsep : ∀ piece ∈ front, '/' ∉ piece := fun piece hp =>
    separator_notMem_of_mem_pieces (h ▸ List.mem_append_left rest hp)
  rw [pieces, hlead, ← hlen, List.drop_left, unsplit, Text.split_joinWith hne hsep]

/-! ## Parents -/

/-- Nothing can be left off at the end of the path without changing its components. -/
def Tight (p : Path) : Prop :=
  ∀ q : Path, q.text <+: p.text → q.components = p.components → q = p

/-- The path `q` is the path `p` without its last component. -/
structure IsParent (q p : Path) : Prop where
  /-- There is a component to leave out, and it is not the root directory. -/
  components_ne : p.components ≠ [] ∧ p.components ≠ [.root]
  /-- The other components stay. -/
  components_eq : q.components = p.components.dropLast
  /-- The parent is written as the path is. -/
  text_isPrefix : q.text <+: p.text
  /-- Nothing is written after its last component. -/
  tight : q.Tight

/-- A path has one parent at most. -/
theorem IsParent.unique {r : Path} (hq : q.IsParent p) (hr : r.IsParent p) : q = r := by
  have hcomponents : q.components = r.components := hq.components_eq.trans hr.components_eq.symm
  rcases List.prefix_or_prefix_of_prefix hq.text_isPrefix hr.text_isPrefix with h | h
  · exact hr.tight q h hcomponents
  · exact (hq.tight r h hcomponents.symm).symm

/-- What a piece that does not count starts with does not count either. -/
theorem ignorable_of_isPrefix {start piece : Text} (h : start <+: piece) (hp : ignorable piece) :
    ignorable start := by
  rw [ignorable, Bool.or_eq_true, beq_iff_eq, beq_iff_eq] at hp ⊢
  rcases hp with rfl | rfl
  · exact .inl (List.prefix_nil.1 h)
  · simpa [List.prefix_cons_iff] using h

/-- Pieces that are cut somewhere are the same as before only if nothing was cut off, if the
    last of them counts. -/
theorem eq_of_counting_cut {start piece last : Text} {rest : List Text} (hstart : start <+: piece)
    (hend : (piece :: rest).getLast? = some last) (hlast : ignorable last = false)
    (h : counting [start] = counting (piece :: rest)) : start = piece ∧ rest = [] := by
  have hmem : last ∈ counting [start] := by
    rw [h]
    exact List.mem_filter.2 ⟨List.mem_of_getLast? hend, by simp [hlast]⟩
  have hstarts : ignorable start = false := by
    rwa [← List.mem_singleton.1 (List.mem_filter.1 hmem).1]
  have hpiece : ignorable piece = false := by
    by_contra hc
    rw [ignorable_of_isPrefix hstart (by simpa using hc)] at hstarts
    cases hstarts
  obtain ⟨heq, hnone⟩ : start = piece ∧ counting rest = [] := by
    simpa [counting, hstarts, hpiece] using h
  refine ⟨heq, ?_⟩
  cases rest with
  | nil => rfl
  | cons next rest =>
    -- Then the last piece comes after the one that is cut, where none counts.
    rw [List.getLast?_cons_cons] at hend
    exact absurd (List.filter_eq_nil_iff.1 hnone last (List.mem_of_getLast? hend)) (by simp [hlast])

/-- A path that ends with a piece that counts is tight. -/
theorem tight_of_pieces {front : List Text} {last : Text} (h : p.pieces = front ++ [last])
    (hlast : ignorable last = false) : p.Tight := by
  intro q hprefix hcomponents
  have hlead : q.lead = p.lead := by
    rw [← q.head?_filter_components, hcomponents, p.head?_filter_components]
  have hcounting : counting q.pieces = counting p.pieces := by
    rw [components_eq_counting, components_eq_counting, hlead, List.append_cancel_left_eq]
      at hcomponents
    exact List.map_injective_iff.2 Component.ofPiece_injective hcomponents
  obtain ⟨same, piece, start, rest, hp, hq, hstart⟩ :
      ∃ same piece start rest, p.pieces = same ++ piece :: rest ∧
        q.pieces = same ++ [start] ∧ start <+: piece := by
    rw [pieces, pieces, hlead]
    exact Text.split_of_isPrefix (List.IsPrefix.drop hprefix _)
  have hleft : counting [start] = counting (piece :: rest) := by
    rw [hp, hq] at hcounting
    simpa [counting] using hcounting
  have hend : (piece :: rest).getLast? = some last := by
    have hgetLast := congrArg List.getLast? (hp.symm.trans h)
    simpa using hgetLast
  obtain ⟨rfl, rfl⟩ := eq_of_counting_cut hstart hend hlast hleft
  exact ext_lead_pieces hlead (hq.trans hp.symm)

/-- A path that consists of its lead is tight. -/
theorem tight_leadText (p : Path) : Tight ⟨p.leadText⟩ := by
  intro q hprefix hcomponents
  rw [components_leadText] at hcomponents
  have hne : q.text = [] → p.lead = none := by
    intro ht
    rw [← p.lead.head?_toList, ← hcomponents, components_eq, lead_eq, ht]
    rfl
  obtain ⟨text⟩ := q
  rcases p.lead_cases with ⟨hl, ht⟩ | ⟨hl, ht⟩ | ⟨hl, ht⟩ <;>
    simp_all [List.prefix_cons_iff]

theorem trimRight_eq_nil_iff {pieces : List Text} :
    trimRight pieces = [] ↔ counting pieces = [] := by
  simp [trimRight, counting, List.dropWhile_eq_nil_iff]

/-- The components of a path whose last piece that counts is known. -/
theorem components_of_trimRight {front : List Text} {last : Text}
    (h : trimRight p.pieces = front ++ [last]) :
    p.components = p.lead.toList ++ (counting front).map .ofPiece ++ [.ofPiece last] := by
  have hlast := not_ignorable_of_trimRight h
  rw [components_eq_counting, ← counting_trimRight, h]
  simp [counting, hlast]

section front

variable {front rest : List Text} (h : p.pieces = front ++ rest)
include h

/-- Some of the pieces, up to the last one that counts, are written after the lead: either
    none of them counts, or they are the pieces of what is written. -/
theorem trimmed_cases :
    (counting front = [] ∧ p.leadText ++ unsplit (trimRight front) = p.leadText) ∨
      (lead ⟨p.leadText ++ unsplit (trimRight front)⟩ = p.lead ∧
        pieces ⟨p.leadText ++ unsplit (trimRight front)⟩ = trimRight front ∧
        trimRight front ≠ []) := by
  obtain ⟨dropped, hd⟩ := trimRight_eq front
  have hpieces : p.pieces = trimRight front ++ (dropped ++ rest) := by
    rw [← List.append_assoc, ← hd, h]
  by_cases hnil : trimRight front = []
  · refine .inl ⟨trimRight_eq_nil_iff.1 hnil, ?_⟩
    rw [hnil]
    exact List.append_nil _
  · exact .inr ⟨lead_front hpieces hnil, pieces_front hpieces hnil, hnil⟩

theorem components_front : components ⟨p.leadText ++ unsplit (trimRight front)⟩ =
    p.lead.toList ++ (counting front).map .ofPiece := by
  rcases trimmed_cases h with ⟨hnone, htext⟩ | ⟨hlead, hpieces, -⟩
  · rw [htext, components_leadText, hnone]
    exact (List.append_nil _).symm
  · rw [components_eq_counting, hlead, hpieces, counting_trimRight]

theorem tight_front : Tight ⟨p.leadText ++ unsplit (trimRight front)⟩ := by
  rcases trimmed_cases h with ⟨-, htext⟩ | ⟨-, hpieces, hne⟩
  · rw [htext]
    exact p.tight_leadText
  · have hlast := (List.dropLast_concat_getLast hne).symm
    exact tight_of_pieces (hpieces.trans hlast) (not_ignorable_of_trimRight hlast)

theorem front_isPrefix : p.leadText ++ unsplit (trimRight front) <+: p.text := by
  obtain ⟨dropped, hd⟩ := trimRight_eq front
  have hpieces : trimRight front <+: p.pieces := by
    refine ⟨dropped ++ rest, ?_⟩
    rw [← List.append_assoc, ← hd, h]
  rw [← p.leadText_append_pieces]
  exact (List.prefix_append_right_inj _).2 (unsplit_isPrefix hpieces)

end front

/-- A path has a last piece that counts, which is left out with what stands around it, or it
    consists of its lead. -/
theorem parent?_cases (p : Path) :
    (p.components = p.lead.toList ∧
      p.parent? = if p.lead = some .current then some ⟨[]⟩ else none) ∨
    ∃ front last, trimRight p.pieces = front ++ [last] ∧
      p.parent? = some ⟨p.leadText ++ unsplit (trimRight front)⟩ := by
  unfold parent?
  cases htrim : trimRight p.pieces with
  | nil =>
    refine .inl ⟨?_, rfl⟩
    rw [components_eq_counting, trimRight_eq_nil_iff.1 htrim]
    exact List.append_nil _
  | cons piece more =>
    exact .inr ⟨_, _, (List.dropLast_concat_getLast (List.cons_ne_nil piece more)).symm, rfl⟩

/-- What `parent?` gives is the parent. -/
theorem isParent_of_parent? (h : p.parent? = some q) : q.IsParent p := by
  rcases p.parent?_cases with ⟨hcomponents, hparent⟩ | ⟨front, last, htrim, hparent⟩
  · -- The parent of `.` is the empty path.
    split_ifs at hparent with hlead
    · cases h.symm.trans hparent
      rw [hlead] at hcomponents
      refine ⟨?_, ?_, List.nil_prefix, fun r hr _ => ?_⟩
      · simp [hcomponents]
      · rw [hcomponents]
        rfl
      · exact congrArg Path.mk (List.prefix_nil.1 hr)
    · cases h.symm.trans hparent
  · cases h.symm.trans hparent
    obtain ⟨dropped, hd⟩ := trimRight_eq p.pieces
    rw [htrim, List.append_assoc] at hd
    have hcomponents := components_of_trimRight htrim
    refine ⟨⟨?_, fun hroot => ?_⟩, ?_, front_isPrefix hd, tight_front hd⟩
    · simp [hcomponents]
    · -- No piece stands for the root directory.
      have hlast := congrArg List.getLast? (hcomponents.symm.trans hroot)
      rw [List.getLast?_concat, Component.ofPiece] at hlast
      split at hlast <;> cases hlast
    · rw [components_front hd, hcomponents, List.dropLast_concat]

/-- The root directory and the empty path have no parent. -/
theorem parent?_eq_none_iff : p.parent? = none ↔ p.components = [] ∨ p.components = [.root] := by
  constructor
  · intro h
    rcases p.parent?_cases with ⟨hcomponents, hparent⟩ | ⟨front, last, htrim, hparent⟩
    · rw [hcomponents]
      rcases p.lead_cases with hl | hl | hl
      · exact .inr (by rw [hl.1]; rfl)
      · rw [if_pos hl.1, h] at hparent
        cases hparent
      · exact .inl (by rw [hl.1]; rfl)
    · cases h.symm.trans hparent
  · intro h
    by_contra hne
    obtain ⟨q, hq⟩ := Option.ne_none_iff_exists'.1 hne
    exact h.elim (isParent_of_parent? hq).components_ne.1 (isParent_of_parent? hq).components_ne.2

/-- The parent is found if there is one. -/
theorem parent?_eq_some_iff : p.parent? = some q ↔ q.IsParent p := by
  refine ⟨isParent_of_parent?, fun h => ?_⟩
  cases hp : p.parent? with
  | none => exact absurd (parent?_eq_none_iff.1 hp) (not_or.2 h.components_ne)
  | some r => rw [(isParent_of_parent? hp).unique h]

/-- A parent has one component less. -/
theorem IsParent.length_components (h : q.IsParent p) :
    p.components.length = q.components.length + 1 := by
  have := List.length_pos_iff.2 h.components_ne.1
  rw [h.components_eq, List.length_dropLast]
  omega

/-- A path and its parent are both absolute, or neither is. -/
theorem IsParent.isAbsolute_eq (h : q.IsParent p) : q.isAbsolute = p.isAbsolute := by
  rw [Bool.eq_iff_iff, ← root_mem_components_iff, ← root_mem_components_iff, h.components_eq]
  refine ⟨fun hroot => List.dropLast_subset _ hroot, fun hroot => ?_⟩
  -- The root directory is the first component, and there are others.
  have hlead : p.lead = some .root := by
    rw [p.components_eq, List.mem_append, or_iff_left (root_notMem_steps _)] at hroot
    simpa using hroot
  have hne := h.components_ne.2
  rw [p.components_eq, hlead] at hne ⊢
  cases hsteps : steps p.text with
  | nil => exact absurd (by rw [hsteps]; rfl) hne
  | cons c more => simp

/-- Only the empty path has no components. -/
theorem text_eq_nil_of_components (h : p.components = []) : p.text = [] := by
  rw [components_eq_counting, List.append_eq_nil_iff, List.map_eq_nil_iff] at h
  by_contra htext
  obtain ⟨piece, more, hpieces, hcounts⟩ := pieces_of_lead_eq_none (by simpa using h.1) htext
  simp [hpieces, counting, hcounts] at h

/-- A path without a parent is the root directory or empty. -/
theorem top_cases (h : p.parent? = none) :
    (p.isAbsolute ∧ p.components = [.root]) ∨
      (¬p.isAbsolute ∧ p.components = [] ∧ p.text = []) := by
  rw [← root_mem_components_iff]
  rcases parent?_eq_none_iff.1 h with hc | hc
  · exact .inr ⟨by simp [hc], hc, text_eq_nil_of_components hc⟩
  · exact .inl ⟨by simp [hc], hc⟩

/-! ## Ancestors -/

/-- The paths are the first one and its parents, up to one that has no parent. -/
inductive Ascent : Path → List Path → Prop
  /-- The root directory and the empty path are at the top. -/
  | top {p : Path} (h : p.components = [] ∨ p.components = [.root]) : Ascent p [p]
  /-- From any other path it goes up to its parent. -/
  | up {p q : Path} {dirs : List Path} (h : q.IsParent p) (rest : Ascent q dirs) :
      Ascent p (p :: dirs)

/-- The ancestors of a path are the ascent from it, and there is no other. -/
theorem ascent_iff {dirs : List Path} : p.Ascent dirs ↔ dirs = p.ancestors := by
  constructor
  · intro h
    induction h with
    | top h => rw [ancestors_of_parent?_eq_none (parent?_eq_none_iff.2 h)]
    | up h _ ih => rw [ancestors_of_parent? (parent?_eq_some_iff.2 h), ih]
  · rintro rfl
    fun_induction ancestors p with
    | case1 p h => exact .top (parent?_eq_none_iff.1 h)
    | case2 p q h _ ih => exact .up (parent?_eq_some_iff.1 h) ih

/-- The number of ancestors is that of the components, where the empty path counts too. -/
theorem length_ancestors (p : Path) :
    p.ancestors.length = p.components.length + if p.isAbsolute then 0 else 1 := by
  fun_induction ancestors p with
  | case1 p h =>
    rcases top_cases h with ⟨habs, hc⟩ | ⟨habs, hc, -⟩
    · rw [if_pos habs, hc]
      rfl
    · rw [if_neg habs, hc]
      rfl
  | case2 p q h _ ih =>
    have hparent := isParent_of_parent? h
    rw [List.length_cons, ih, hparent.length_components, hparent.isAbsolute_eq]
    omega

/-- The last ancestor is the root directory for an absolute path, and the empty path for any
    other. -/
theorem exists_last_ancestor (p : Path) :
    ∃ below top, p.ancestors = below ++ [top] ∧
      if p.isAbsolute then top.components = [.root] else top.text = [] := by
  fun_induction ancestors p with
  | case1 p h =>
    refine ⟨[], p, rfl, ?_⟩
    rcases top_cases h with ⟨habs, hc⟩ | ⟨habs, -, ht⟩
    · rwa [if_pos habs]
    · rwa [if_neg habs]
  | case2 p q h _ ih =>
    obtain ⟨below, top, hq, htop⟩ := ih
    refine ⟨p :: below, top, by rw [hq]; rfl, ?_⟩
    rwa [← (isParent_of_parent? h).isAbsolute_eq]

end Tangle.Path
