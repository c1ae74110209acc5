import Tangle.Proofs.Components

/-!
# Paths as seen from a directory

A path that lies in a directory, i.e., whose components start with those of the
directory, is written again without them (`Path.relativeTo?`). This is done with the
pieces of the path: as many of them are dropped as the directory has components, and
those that do not count are dropped at both ends.

What comes out means what is left: its components are those of the path after those of
the directory (`Path.components_relativeTo?`). In particular it starts neither with a
separator nor with a `.`, and so has no lead, but for an empty directory, whose paths
keep the lead that they have.
-/

namespace Tangle

namespace Path

/-- The pieces that count. -/
def counting (pieces : List Text) : List Text := pieces.filter fun piece => !ignorable piece

theorem counting_dropWhile (pieces : List Text) :
    counting (pieces.dropWhile ignorable) = counting pieces := by
  induction pieces with
  | nil => rfl
  | cons piece more ih =>
    by_cases h : ignorable piece
    · simpa [counting, h] using ih
    · simp [counting, h]

theorem counting_trimRight (pieces : List Text) :
    counting (trimRight pieces) = counting pieces := by
  have h := counting_dropWhile pieces.reverse
  simp only [counting, trimRight, List.filter_reverse] at h ⊢
  rw [h, List.reverse_reverse]

theorem counting_dropCounting (n : Nat) (pieces : List Text) :
    counting (dropCounting n pieces) = (counting pieces).drop n := by
  fun_induction dropCounting n pieces with
  | case1 pieces => rfl
  | case2 => simp [counting]
  | case3 n piece more h ih => simpa [counting, h] using ih
  | case4 n piece more h ih => simpa [counting, h] using ih

theorem dropCounting_subset (n : Nat) (pieces : List Text) : dropCounting n pieces ⊆ pieces := by
  fun_induction dropCounting n pieces with
  | case1 pieces => exact List.Subset.refl _
  | case2 => exact List.Subset.refl _
  | case3 n piece more h ih => exact List.Subset.trans ih (List.subset_cons_self _ _)
  | case4 n piece more h ih => exact List.Subset.trans ih (List.subset_cons_self _ _)

/-- The steps of written pieces are those that count. -/
theorem steps_unsplit {pieces : List Text} (h : ∀ piece ∈ pieces, '/' ∉ piece) :
    steps (unsplit pieces) = (counting pieces).map .ofPiece := by
  cases pieces with
  | nil => rfl
  | cons piece more => rw [steps, unsplit, Text.split_joinWith (List.cons_ne_nil _ _) h, counting]

/-- Pieces are written after the first one and a separator. -/
theorem unsplit_cons (piece : Text) (more : List Text) :
    unsplit (piece :: more) = piece ∨ unsplit (piece :: more) = piece ++ '/' :: unsplit more := by
  cases more with
  | nil => exact .inl rfl
  | cons next more =>
    refine .inr ?_
    rw [unsplit, Text.joinWith_cons piece (List.cons_ne_nil _ _), List.append_assoc]
    rfl

/-- A path that starts with a piece that counts has no lead. -/
theorem lead_unsplit {piece : Text} (hc : ignorable piece = false) (hs : '/' ∉ piece)
    (more : List Text) : lead ⟨unsplit (piece :: more)⟩ = none := by
  rw [lead_eq]
  generalize hrest : unsplit (piece :: more) = text
  have htext := unsplit_cons piece more
  rw [hrest] at htext
  rcases piece with _ | ⟨c, _ | ⟨d, r⟩⟩
  · simp [ignorable] at hc
  · -- A single character counts if it is no `.`.
    have hslash : c ≠ '/' := fun e => hs (by simp [e])
    have hdot : c ≠ '.' := fun e => by simp [ignorable, e] at hc
    rcases htext with rfl | rfl <;> simp [hslash, hdot]
  · have hslash : c ≠ '/' ∧ d ≠ '/' := ⟨fun e => hs (by simp [e]), fun e => hs (by simp [e])⟩
    rcases htext with rfl | rfl <;> simp [hslash]

theorem trimRight_cons_of_counts {piece : Text} (h : ignorable piece = false) (more : List Text) :
    trimRight (piece :: more) = piece :: trimRight more := by
  simp only [trimRight, List.reverse_cons, List.dropWhile_append]
  split <;> simp_all

theorem separator_notMem_of_mem_pieces {p : Path} {piece : Text} (h : piece ∈ p.pieces) :
    '/' ∉ piece := Text.notMem_of_mem_split h

theorem components_eq_counting (p : Path) :
    p.components = p.lead.toList ++ (counting p.pieces).map .ofPiece := rfl

/-- A path that starts with pieces that count, up to the last one that does, has these
    pieces as its components. -/
theorem components_unsplit {pieces : List Text} (h : ∀ piece ∈ pieces, '/' ∉ piece) :
    components ⟨unsplit (trimRight (trimLeft pieces))⟩ = (counting pieces).map .ofPiece := by
  have hcounting : counting (trimRight (trimLeft pieces)) = counting pieces := by
    rw [counting_trimRight, trimLeft, counting_dropWhile]
  have hsub : trimRight (trimLeft pieces) ⊆ pieces := by
    obtain ⟨dropped, hd⟩ := trimRight_eq (trimLeft pieces)
    intro piece hp
    have hleft : piece ∈ trimLeft pieces := by
      rw [hd]
      exact List.mem_append_left dropped hp
    exact (List.dropWhile_sublist _).subset hleft
  have hlead : lead ⟨unsplit (trimRight (trimLeft pieces))⟩ = none := by
    cases hl : trimLeft pieces with
    | nil => rfl
    | cons piece more =>
      have hc : ignorable piece = false := by
        have := List.head?_dropWhile_not ignorable pieces
        rw [trimLeft] at hl
        simpa [hl] using this
      have hp : piece ∈ pieces := (List.dropWhile_sublist _).subset (hl ▸ List.mem_cons_self)
      rw [trimRight_cons_of_counts hc]
      exact lead_unsplit hc (h piece hp) _
  rw [components_eq, hlead, steps_unsplit fun piece hp => h piece (hsub hp), hcounting]
  rfl

/-- A path without a lead that is not empty starts with a piece that counts. -/
theorem pieces_of_lead_eq_none {p : Path} (hl : p.lead = none) (ht : p.text ≠ []) :
    ∃ piece more, p.pieces = piece :: more ∧ ignorable piece = false := by
  obtain ⟨c, t, hct⟩ := List.exists_cons_of_ne_nil ht
  have hlead := p.lead_eq
  rw [hl, hct] at hlead
  have hslash : c ≠ '/' := by
    rintro rfl
    simp at hlead
  obtain ⟨part, more, hsplit⟩ := List.exists_cons_of_ne_nil (Text.split_ne_nil '/' t)
  refine ⟨c :: part, more, ?_, ?_⟩
  · rw [pieces, hl, hct]
    simp [Text.split, hslash, hsplit]
  · -- A first piece `.` is the lead.
    have hpart : ¬(c = '.' ∧ part = []) := by
      rintro ⟨rfl, rfl⟩
      have ht := Text.joinWith_split '/' t
      rw [hsplit] at ht
      rcases unsplit_cons [] more with h | h <;> rw [unsplit, ht] at h <;> simp [h] at hlead
    simpa [ignorable] using hpart

/-- What is left of the pieces is written after a separator, if the first one does not
    count. -/
theorem unsplit_trimRight_cons (piece : Text) (h : ignorable piece) (more : List Text) :
    unsplit (trimRight (piece :: more)) = [] ∨
      ∃ rest, unsplit (trimRight (piece :: more)) = piece ++ '/' :: rest := by
  obtain ⟨dropped, hd⟩ := trimRight_eq (piece :: more)
  cases ht : trimRight (piece :: more) with
  | nil => exact .inl rfl
  | cons first front =>
    obtain rfl : first = piece := by
      rw [ht] at hd
      exact (List.head_eq_of_cons_eq hd).symm
    -- The last piece that is left counts, so it is not the first one.
    cases front with
    | nil =>
      rw [not_ignorable_of_trimRight (ht.trans (List.nil_append _).symm)] at h
      cases h
    | cons next front =>
      refine .inr ⟨unsplit (next :: front), ?_⟩
      rw [unsplit, Text.joinWith_cons first (List.cons_ne_nil _ _), List.append_assoc]
      rfl

/-- A path that is written without what follows its last component has the same
    components. -/
theorem components_trimmed (p : Path) :
    components ⟨p.leadText ++ unsplit (trimRight p.pieces)⟩ = p.components := by
  have hsub : trimRight p.pieces ⊆ p.pieces := by
    obtain ⟨dropped, hd⟩ := trimRight_eq p.pieces
    intro piece hp
    rw [hd]
    exact List.mem_append_left dropped hp
  have hsteps : steps (unsplit (trimRight p.pieces)) = (counting p.pieces).map .ofPiece := by
    rw [steps_unsplit fun piece hp => separator_notMem_of_mem_pieces (hsub hp), counting_trimRight]
  rw [components_eq, components_eq_counting, ← hsteps]
  obtain ⟨text⟩ := p
  rcases text with _ | ⟨c, t⟩
  · rfl
  by_cases hslash : c = '/'
  · subst hslash
    exact congrArg (.root :: ·) (steps_cons _)
  by_cases hdot : c = '.' ∧ t.headD '/' = '/'
  · obtain ⟨rfl, ht⟩ := hdot
    rcases t with _ | ⟨d, t⟩
    · rfl
    · -- The piece between the `.` and the separator is empty.
      obtain rfl : d = '/' := by simpa using ht
      have hpieces : pieces ⟨'.' :: '/' :: t⟩ = [] :: Text.split '/' t := rfl
      have hlead : leadText ⟨'.' :: '/' :: t⟩ = ['.'] := rfl
      rw [hlead, hpieces]
      rcases unsplit_trimRight_cons [] rfl (Text.split '/' t) with h | ⟨rest, h⟩
      · rw [h]
        rfl
      · rw [h, List.nil_append, List.singleton_append, steps_cons]
        exact congrArg (.current :: ·) (steps_append ['.'] rest)
  · have hlead : lead ⟨c :: t⟩ = none := by
      rw [lead_eq]
      simp_all
    have htext : leadText ⟨c :: t⟩ = [] := by rw [leadText, hlead]; rfl
    obtain ⟨piece, more, hpieces, hc⟩ := pieces_of_lead_eq_none hlead (List.cons_ne_nil c t)
    have hpiece : '/' ∉ piece := separator_notMem_of_mem_pieces (hpieces ▸ List.mem_cons_self)
    rw [htext, hpieces, trimRight_cons_of_counts hc, List.nil_append, lead_unsplit hc hpiece, hlead]

/-- A path as seen from a directory has the components after those of the directory. -/
theorem components_relativeTo? {p base q : Path} (h : p.relativeTo? base = some q) :
    p.components = base.components ++ q.components := by
  unfold relativeTo? at h
  split at h
  · rename_i hprefix
    obtain ⟨rest, hrest⟩ := List.isPrefixOf_iff_prefix.1 hprefix
    rw [← hrest, List.append_cancel_left_eq]
    split at h
    · rename_i hbase
      cases h
      rw [components_trimmed, ← hrest, hbase, List.nil_append]
    · rename_i hbase
      cases h
      rw [components_unsplit, counting_dropCounting, List.map_drop]
      · -- The lead is one component at most, so it belongs to the directory.
        have hlead : p.lead.toList.drop base.components.length = [] := by
          have hlen := List.length_pos_iff.2 hbase
          have := Option.length_toList_le (o := p.lead)
          exact List.drop_eq_nil_of_le (by omega)
        calc rest
          _ = p.components.drop base.components.length := by rw [← hrest, List.drop_left]
          _ = _ := by rw [p.components_eq_counting, List.drop_append, hlead, List.nil_append]
      · exact fun piece hp => separator_notMem_of_mem_pieces (dropCounting_subset _ _ hp)
  · cases h

end Path
end Tangle
