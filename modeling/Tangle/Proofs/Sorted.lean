import Tangle.Path.Basic
import Mathlib.Data.List.Pairwise
import Mathlib.Data.List.Sort

/-!
# Paths in order

Paths are ordered by their components, component by component. This is a total order
on what paths mean: `p` comes *before* `q` (`Path.Before`), or the other way round, or
the two are alike.

`Path.sorted` puts paths in this order and drops each that is alike to its neighbour.
What is left is strictly increasing (`Path.pairwise_sorted`), and has a path for each
one given (`Path.exists_mem_sorted`). A list that is strictly increasing is known by
its members (`Path.eq_of_pairwise_before`), so nothing depends on the order in which the
paths were given, or on how often.
-/

namespace Tangle.Path

/-! ## The order of components -/

namespace Component

/-- The rank of a component among those of other sorts. -/
def rank : Component → Nat
  | root => 0
  | current => 1
  | parent => 2
  | normal _ => 3

/-- The name in a component, if there is one. -/
def name : Component → Text
  | normal name => name
  | root | current | parent => []

/-- Components are compared by their ranks, then by their names. -/
theorem compare_eq :
    (compare : Component → Component → Ordering) =
      compareLex (compareOn rank) (compareOn name) := by
  funext a b
  cases a <;> cases b <;> first | rfl | exact Ordering.then_eq

instance : Std.TransOrd Component :=
  show Std.TransCmp compare from compare_eq ▸ inferInstance

instance : Std.LawfulEqOrd Component where
  eq_of_compare {a b} h := by
    rw [compare_eq, compareLex_eq_eq] at h
    have hname : a.name = b.name := Std.LawfulEqOrd.eq_of_compare h.2
    have hrank : a.rank = b.rank := Std.LawfulEqOrd.eq_of_compare h.1
    cases a <;> cases b <;> simp_all [rank, name]

end Component

/-! ## The order of paths -/

/-- The path comes before the other. -/
def Before (p q : Path) : Prop := compare p.components q.components = .lt

instance : DecidableRel Before := fun p q =>
  inferInstanceAs (Decidable (compare p.components q.components = .lt))

variable {p q r : Path} {paths : List Path}

theorem alike_iff : p.alike q ↔ p.components = q.components := by
  rw [alike, beq_iff_eq]

theorem alike_refl (p : Path) : p.alike p := alike_iff.2 rfl

theorem alike_symm (h : p.alike q) : q.alike p := alike_iff.2 (alike_iff.1 h).symm

theorem alike_trans (h : p.alike q) (h' : q.alike r) : p.alike r :=
  alike_iff.2 ((alike_iff.1 h).trans (alike_iff.1 h'))

theorem le_iff : p.le q ↔ p.Before q ∨ p.alike q := by
  rw [le, Ordering.isLE_iff_eq_lt_or_eq_eq, Std.LawfulEqOrd.compare_eq_iff_eq, alike_iff, Before]

theorem Before.not_alike (h : p.Before q) : ¬p.alike q := by
  intro hq
  rw [Before, alike_iff.1 hq, Std.ReflOrd.compare_self] at h
  cases h

instance : Std.Irrefl Before where
  irrefl p h := h.not_alike (by simp [alike])

theorem Before.trans_le (h : p.Before q) (h' : q.le r) : p.Before r :=
  Std.TransCmp.lt_of_lt_of_isLE h h'

theorem Before.trans (h : p.Before q) (h' : q.Before r) : p.Before r :=
  h.trans_le (le_iff.2 (.inl h'))

theorem le_trans (p q r : Path) (h : p.le q) (h' : q.le r) : p.le r :=
  Std.TransCmp.isLE_trans h h'

theorem Before.asymm (h : p.Before q) : ¬q.Before p := fun h' =>
  irrefl_of Before p (h.trans h')

instance : Std.Antisymm Before where
  antisymm _ _ h h' := absurd h' h.asymm

theorem le_total (p q : Path) : p.le q || q.le p := by
  rw [le, le, Std.OrientedOrd.eq_swap (a := q.components)]
  cases compare p.components q.components <;> rfl

/-- Paths that are strictly increasing are known by their members. -/
theorem eq_of_pairwise_before {l l' : List Path} (h : l.Pairwise Before) (h' : l'.Pairwise Before)
    (hmem : ∀ p, p ∈ l ↔ p ∈ l') : l = l' := h.eq_of_mem_iff h' hmem

/-- If no two of the paths are alike, then those that are alike are the same. -/
theorem eq_of_alike (h : paths.Pairwise fun p q => ¬p.alike q) (hp : p ∈ paths) (hq : q ∈ paths)
    (halike : p.alike q) : p = q := by
  have : Std.Symm fun p q : Path => ¬p.alike q := ⟨fun p q hpq hqp => hpq (alike_symm hqp)⟩
  by_contra hne
  exact h.forall hp hq hne halike

/-! ## Sorting -/

theorem dedup_sublist (paths : List Path) : (sorted.dedup paths).Sublist paths := by
  fun_induction sorted.dedup paths with
  | case1 => exact .slnil
  | case2 p => exact .refl _
  | case3 p q more hq ih => exact ih.trans (.cons_cons p (.cons q (.refl more)))
  | case4 p q more hq ih => exact ih.cons_cons p

/-- Of neighbours in order that are alike, one is left. -/
theorem pairwise_dedup (h : paths.Pairwise fun p q => p.le q) :
    (sorted.dedup paths).Pairwise Before := by
  fun_induction sorted.dedup paths with
  | case1 => exact .nil
  | case2 p => exact List.pairwise_singleton _ p
  | case3 p q more hq ih => exact ih (h.sublist (.cons_cons p (.cons q (.refl more))))
  | case4 p q more hq ih =>
    obtain ⟨hp, hmore⟩ := List.pairwise_cons.1 h
    have hbefore : p.Before q := (le_iff.1 (hp q List.mem_cons_self)).resolve_right hq
    refine List.pairwise_cons.2 ⟨fun r hr => ?_, ih hmore⟩
    -- What is left after `q` does not come before it.
    rcases List.mem_cons.1 ((dedup_sublist _).subset hr) with rfl | hr
    · exact hbefore
    · exact hbefore.trans_le ((List.pairwise_cons.1 hmore).1 r hr)

/-- For a path that is dropped, one that is alike is left. -/
theorem exists_mem_dedup (hp : p ∈ paths) : ∃ q ∈ sorted.dedup paths, q.alike p := by
  fun_induction sorted.dedup paths generalizing p with
  | case1 => exact absurd hp List.not_mem_nil
  | case2 r =>
    obtain rfl := List.mem_singleton.1 hp
    exact ⟨p, List.mem_singleton_self p, alike_refl p⟩
  | case3 r q more hq ih =>
    rcases List.mem_cons.1 hp with rfl | hp
    · exact ih List.mem_cons_self
    · rcases List.mem_cons.1 hp with rfl | hp
      · obtain ⟨a, ha, hr⟩ := ih List.mem_cons_self
        exact ⟨a, ha, alike_trans hr hq⟩
      · exact ih (List.mem_cons_of_mem _ hp)
  | case4 r q more hq ih =>
    rcases List.mem_cons.1 hp with rfl | hp
    · exact ⟨p, List.mem_cons_self, alike_refl p⟩
    · obtain ⟨a, ha, hr⟩ := ih hp
      exact ⟨a, List.mem_cons_of_mem _ ha, hr⟩

/-- Sorted paths are strictly increasing. -/
theorem pairwise_sorted (paths : List Path) : (sorted paths).Pairwise Before :=
  pairwise_dedup (List.pairwise_mergeSort le_trans le_total paths)

/-- Sorted paths are among those given. -/
theorem mem_of_mem_sorted (h : p ∈ sorted paths) : p ∈ paths :=
  List.mem_mergeSort.1 ((dedup_sublist _).subset h)

/-- For each path given, there is one among the sorted that is alike. -/
theorem exists_mem_sorted (h : p ∈ paths) : ∃ q ∈ sorted paths, q.alike p :=
  exists_mem_dedup (List.mem_mergeSort.2 h)

/-- If none of the paths given are alike but those that are the same, then the sorted paths
    are exactly those given. -/
theorem mem_sorted_iff (h : ∀ p ∈ paths, ∀ q ∈ paths, p.alike q → p = q) :
    p ∈ sorted paths ↔ p ∈ paths := by
  refine ⟨mem_of_mem_sorted, fun hp => ?_⟩
  obtain ⟨q, hq, halike⟩ := exists_mem_sorted hp
  rwa [← h q (mem_of_mem_sorted hq) p hp halike]

end Tangle.Path
