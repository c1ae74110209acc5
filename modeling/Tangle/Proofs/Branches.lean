import Tangle.Proofs.Relinking
import Mathlib.Data.List.Perm.Subperm

/-!
# Branches of reference trees

What the tree of a chunk looks like, whatever the links of the store are. A chunk in a tree is
the root of a *subtree*, and the chunks *above* it are those on the way from the root of the
whole tree (`Forest.HasSubtree`).

How trees are planted tells of every subtree what its mark and its children are
(`Forest.Planted.subtree`). A way down a tree goes on only as long as it comes to chunks that it
has not met, and all of them are in the store (`Forest.Planted.nodup_above`). So no way is longer
than the store has chunks, but for a last chunk that is marked.

A tree cannot be planted if a child is missing. That does not happen, as the links of a store are
accounted for (`Store.Accounted.closed`).
-/

namespace Tangle

/-- The tree stands in the forest, below those chunks, from the outermost to the innermost. -/
inductive Forest.HasSubtree : Forest → List Key → Tree → Prop
  | here {k : Key} {recursive : Bool} {below rest : Forest} :
    HasSubtree (.cons k recursive below rest) [] ⟨k, recursive, below⟩
  | inside {k : Key} {recursive : Bool} {below rest : Forest} {above : List Key} {u : Tree} :
    HasSubtree below above u → HasSubtree (.cons k recursive below rest) (k :: above) u
  | later {k : Key} {recursive : Bool} {below rest : Forest} {above : List Key} {u : Tree} :
    HasSubtree rest above u → HasSubtree (.cons k recursive below rest) above u

/-- The second tree stands in the first one, below those chunks. -/
def Tree.HasSubtree (t : Tree) (above : List Key) (u : Tree) : Prop :=
  t.toForest.HasSubtree above u

namespace Forest.Planted

variable {s : Store} {path roots above : List Key} {f : Forest} {u : Tree}

/-- The roots of a forest are those that were given. -/
theorem map_root_trees (h : Planted s path roots f) : f.trees.map (·.root) = roots := by
  induction h with
  | nil => rfl
  | again _ _ ih | first _ _ _ _ _ ih => rw [trees, List.map_cons, ih]

/-- A chunk in a forest is marked exactly if it is above itself. Below a mark there is nothing,
    and below any other chunk there are its children. -/
theorem subtree (h : Planted s path roots f) (hu : f.HasSubtree above u) :
    (u.recursive ↔ u.root ∈ path ++ above) ∧ (u.recursive → u.below = .nil) ∧
      (u.recursive = false →
        ∃ c, s.get? u.root = some c ∧ u.below.trees.map (·.root) = c.children) := by
  induction h generalizing above u with
  | nil => cases hu
  | again hp _ ih =>
    cases hu with
    | here => simp [hp]
    | inside hu => cases hu
    | later hu => exact ih hu
  | first hp hc hbelow _ ihBelow ihRest =>
    cases hu with
    | here => simp [hp, hc, hbelow.map_root_trees]
    | inside hu =>
      rw [List.append_cons]
      exact ihBelow hu
    | later hu => exact ihRest hu

/-- The chunks above one in a forest are chunks of the store, and no two of them are the same. -/
theorem nodup_above (h : Planted s path roots f) (hu : f.HasSubtree above u) (hpath : path.Nodup)
    (hkeys : path ⊆ s.keys) : (path ++ above).Nodup ∧ path ++ above ⊆ s.keys := by
  induction h generalizing above u with
  | nil => cases hu
  | again hp _ ih =>
    cases hu with
    | here => simpa using ⟨hpath, hkeys⟩
    | inside hu => cases hu
    | later hu => exact ih hu hpath hkeys
  | @first path _ k c _ _ hp hc _ _ ihBelow ihRest =>
    cases hu with
    | here => simpa using ⟨hpath, hkeys⟩
    | inside hu =>
      rw [List.append_cons]
      refine ihBelow hu ?_ ?_
      · rw [← List.concat_eq_append]
        exact hpath.concat hp
      · exact List.append_subset.2
          ⟨hkeys, List.cons_subset.2 ⟨Store.mem_keys_of_get? hc, List.nil_subset _⟩⟩
    | later hu => exact ihRest hu hpath hkeys

end Forest.Planted

namespace Store

variable {s : Store} {k : Key}

theorem Accounted.closed (h : s.Accounted) : s.Closed := by
  intro k c hc l hl
  obtain ⟨d, hd, -⟩ := h.children k c hc l hl
  simp [hd]

theorem mem_keys_iff : k ∈ s.keys ↔ s.get? k ≠ none := by
  rw [ne_eq, get?_eq_none_iff, not_not]
  obtain ⟨kind, name⟩ := k
  cases kind <;> simp [keys, registry]

theorem length_keys (s : Store) : s.keys.length = s.size := by
  simp [keys, size]

/-- The tree of a chunk is planted at the chunk, if all children are found. -/
theorem Closed.planted_of_tree (hclosed : s.Closed) {t : Tree} (ht : s.tree k = .ok t) :
    Forest.Planted s [] [k] t.toForest ∧ t.root = k := by
  cases hc : s.get? k with
  | none =>
    rw [tree, hc] at ht
    cases ht
  | some c =>
    obtain ⟨f, hf⟩ := hclosed.exists_planted [k] (hclosed k c hc)
    cases (tree_of_planted hc hf).symm.trans ht
    exact ⟨.first List.not_mem_nil hc hf .nil, rfl⟩

/-- Whatever was done to a store, a key has a tree unless it is not registered. The tree has the
    key at its root; a chunk in it is marked exactly if it is above itself; below a mark there is
    nothing, and below any other chunk there are its children, in order; and a way from the root
    down has at most one chunk more than the store. -/
theorem tree_of_run (ops : List Operation) (k : Key) :
    let s := run ops {}
    ((∃ e, s.tree k = .error e) ↔ k ∉ s.keys) ∧
    ∀ t, s.tree k = .ok t → t.root = k ∧ ∀ above u, t.HasSubtree above u →
      (u.recursive ↔ u.root ∈ above) ∧ (u.recursive → u.below = .nil) ∧
      (u.recursive = false →
        ∃ c, s.get? u.root = some c ∧ u.below.trees.map (·.root) = c.children) ∧
      (above ++ [u.root]).length ≤ s.size + 1 := by
  intro s
  have hclosed : s.Closed := (Accounted.empty.run ops).closed
  constructor
  · rw [mem_keys_iff, not_not]
    cases hc : s.get? k with
    | none => simp [tree, hc]
    | some c =>
      obtain ⟨f, hf⟩ := hclosed.exists_planted [k] (hclosed k c hc)
      simp [tree_of_planted hc hf]
  · intro t ht
    obtain ⟨hplanted, hroot⟩ := hclosed.planted_of_tree ht
    refine ⟨hroot, fun above u hu => ?_⟩
    obtain ⟨hmark, hnil, hchildren⟩ := hplanted.subtree hu
    obtain ⟨hnodup, hkeys⟩ := hplanted.nodup_above hu List.nodup_nil (List.nil_subset _)
    refine ⟨hmark, hnil, hchildren, ?_⟩
    have hlength := (List.subperm_of_subset hnodup hkeys).length_le
    rw [length_keys] at hlength
    simpa using hlength

/-- Two chunks that refer to each other are read and linked. -/
def circularOperations : List Operation := circular.map (fun d => .read d.1 d.2) ++ [.link]

/-- The way that comes to the first chunk again is as long as can be. -/
theorem tree_of_circular :
    let s := run circularOperations {}
    let a : Key := ⟨.fragment, .ofText ['a']⟩
    let b : Key := ⟨.fragment, .ofText ['b']⟩
    ∃ t, s.tree a = .ok t ∧ t.HasSubtree [a, b] ⟨a, true, .nil⟩ ∧ a ∈ [a, b] ∧
      ([a, b] ++ [a]).length ≤ s.size + 1 ∧ s.size = 2 := by
  intro s a b
  obtain ⟨-, hshape⟩ := tree_of_run circularOperations a
  have hplanted : Forest.Planted s [a] [b] (.cons b false (.cons a true .nil .nil) .nil) :=
    .first (by decide) rfl (.again (by decide) .nil) .nil
  obtain ⟨c, hc, hchildren⟩ : ∃ c, s.get? a = some c ∧ c.children = [b] := ⟨_, rfl, by decide⟩
  have htree := tree_of_planted hc (hchildren ▸ hplanted)
  have hbelow : Tree.HasSubtree ⟨a, false, .cons b false (.cons a true .nil .nil) .nil⟩ [a, b]
      ⟨a, true, .nil⟩ := .inside (.inside .here)
  obtain ⟨-, hall⟩ := hshape _ htree
  obtain ⟨hmark, -, -, hlength⟩ := hall _ _ hbelow
  exact ⟨_, htree, hbelow, hmark.1 rfl, hlength, by decide⟩

end Store

end Tangle
