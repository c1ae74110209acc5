import Tangle.Proofs.Linking
import Tangle.Proofs.Reached
import Tangle.References.Tree

/-!
# Trees of references

Links and expansions tell the same about references, though they come to it in
different ways. A link is made of a name in the lines of a chunk, and the tree of a
chunk follows links; an expansion reads the lines with their numbers, and looks up each
name when it comes to it. In a store that is filled by documents these are the same
lines (`Store.Filled.exists_childrenOf_iff`), and so:

* the children of a chunk are the chunks that it refers to (`Store.Filled.isLinked`), and
  its tree has a mark exactly if a circle can be reached from it
  (`Store.IsLinked.exists_tree`), which is when it cannot be expanded;
* an expansion leaves no reference unresolved exactly if no chunk that was reached has a
  reference without a chunk (`Store.Filled.unresolved_eq_nil_iff`).

How a tree comes about is told by rules (`Forest.Planted`), as for unfoldings.
-/

namespace Tangle

open Relation

/-- A chunk in the trees is marked. -/
def Forest.marked : Forest → Bool
  | nil => false
  | cons _ recursive below rest => recursive || below.marked || rest.marked

/-- A chunk in the tree is marked. -/
def Tree.marked (t : Tree) : Bool := t.toForest.marked

/-! ## Planting -/

/-- The forest of some roots, below a path. -/
inductive Forest.Planted (s : Store) : List Key → List Key → Forest → Prop
  | nil {path : List Key} : Planted s path [] .nil
  | again {path roots : List Key} {k : Key} {rest : Forest} :
    k ∈ path → Planted s path roots rest → Planted s path (k :: roots) (.cons k true .nil rest)
  | first {path roots : List Key} {k : Key} {c : Chunk} {below rest : Forest} :
    k ∉ path → s.get? k = some c → Planted s (path ++ [k]) c.children below →
      Planted s path roots rest → Planted s path (k :: roots) (.cons k false below rest)

namespace Store

/-- The children of every chunk are the chunks that it refers to. -/
def IsLinked (s : Store) : Prop := ∀ k c, s.get? k = some c → ∀ l, l ∈ c.children ↔ s.Refers k l

/-- The children of every chunk are found. -/
def Closed (s : Store) : Prop := ∀ k c, s.get? k = some c → ∀ l ∈ c.children, s.get? l ≠ none

variable {s : Store}

/-- A chunk that is referred to is found. -/
theorem Consistent.get?_ne_none_of_refers (hs : s.Consistent) {k l : Key} (h : s.Refers k l) :
    s.get? l ≠ none := by
  obtain ⟨_, _, _, _, hb⟩ := h
  rw [hs.get?_key (mem_chunks_of_lookup hb)]
  exact Option.some_ne_none _

theorem IsLinked.closed (hs : s.Consistent) (hl : s.IsLinked) : s.Closed :=
  fun k c hc l hm => hs.get?_ne_none_of_refers ((hl k c hc l).1 hm)

/-- What is planted is the forest. -/
theorem forest_of_planted {path roots : List Key} {f : Forest} (h : Forest.Planted s path roots f) :
    s.forest path roots = .ok f := by
  induction h with
  | nil => rw [forest]
  | again hp _ ih =>
    rw [forest, dif_pos hp, ih]
    rfl
  | first hp hc _ _ ihBelow ihRest =>
    rw [forest, dif_neg hp]
    split
    · cases hc.symm.trans ‹_›
    · rename_i hc'
      cases hc.symm.trans hc'
      simp only [ihBelow, ihRest]
      rfl

theorem tree_of_planted {k : Key} {c : Chunk} (hc : s.get? k = some c) {f : Forest}
    (h : Forest.Planted s [k] c.children f) : s.tree k = .ok ⟨k, false, f⟩ := by
  rw [tree, hc]
  simp only [forest_of_planted h]
  rfl

/-- If all children are found, so are all chunks that are to be planted. -/
theorem Closed.exists_planted (hclosed : s.Closed) (path : List Key) {roots : List Key}
    (hroots : ∀ k ∈ roots, s.get? k ≠ none) : ∃ f, Forest.Planted s path roots f := by
  fun_induction forest s path roots with
  | case1 path => exact ⟨_, .nil⟩
  | case2 path k roots hp ih =>
    obtain ⟨rest, hrest⟩ := ih (List.forall_mem_cons.1 hroots).2
    exact ⟨_, .again hp hrest⟩
  | case3 path k roots hp hc => exact absurd hc (hroots k List.mem_cons_self)
  | case4 path k roots hp c hc _ ihBelow ihRest =>
    obtain ⟨rest, hrest⟩ := ihRest (List.forall_mem_cons.1 hroots).2
    obtain ⟨below, hbelow⟩ := ihBelow (hclosed k c hc)
    exact ⟨_, .first hp hc hbelow hrest⟩

end Store

namespace Forest.Planted

variable {s : Store} {path roots : List Key} {f : Forest}

/-- A mark in a forest closes a lasso, if the path is a walk to a chunk that refers to
    the roots. -/
theorem lasso (hl : s.IsLinked) (h : Planted s path roots f) (hm : f.marked) {start current : Key}
    {t : Trail} (hpath : t.stack = path) (ht : t.Follows s start current)
    (hroots : ∀ k ∈ roots, s.Refers current k) : ∃ walk last, s.IsLasso start walk last := by
  -- The path is the stack of a trail: it goes on where the trail can be continued, and
  -- a mark stands where it cannot.
  induction h generalizing t current with
  | nil => cases hm
  | @again path roots k rest hp _ _ =>
    have hseen : k ∈ t.seen := (ht.seen k).2 (hpath ▸ hp)
    have henter : t.enter k = .error (.cycle (t.stack.map (·.name) ++ [k.name])) := if_pos hseen
    obtain ⟨walk, last, -, hlasso⟩ := ht.lasso (hroots k List.mem_cons_self) henter
    exact ⟨walk, last, hlasso⟩
  | @first path roots k c below rest hp hc _ _ ihBelow ihRest =>
    rw [marked, Bool.false_or, Bool.or_eq_true] at hm
    rcases hm with hm | hm
    · have henter : t.enter k = .ok ⟨t.stack ++ [k], k :: t.seen⟩ :=
        Trail.enter_eq_ok_iff.2 ⟨fun hk => hp (hpath ▸ (ht.seen k).1 hk), rfl⟩
      exact ihBelow hm (hpath ▸ rfl) (ht.enter (hroots k List.mem_cons_self) henter)
        fun l => (hl k c hc l).1
    · exact ihRest hm hpath ht (List.forall_mem_cons.1 hroots).2

/-- Every walk from a root of a forest without marks ends. -/
theorem acc (hl : s.IsLinked) (h : Planted s path roots f) (hm : f.marked = false) :
    ∀ k ∈ roots, Acc (fun l k => s.Refers k l) k := by
  induction h with
  | nil => exact fun _ h => absurd h List.not_mem_nil
  | again => cases hm
  | first _ hc _ _ ihBelow ihRest =>
    rw [marked, Bool.false_or, Bool.or_eq_false_iff] at hm
    -- What the chunk refers to are the roots of the forest below it.
    refine List.forall_mem_cons.2 ⟨.intro _ fun l hr => ?_, ihRest hm.2⟩
    exact ihBelow hm.1 l ((hl _ _ hc l).2 hr)

end Forest.Planted

/-- An expansion fails with a circle exactly if one can be reached. -/
theorem Chunk.expand_eq_cycle_iff {s : Store} {c : Chunk} {config : Config} (hs : s.Consistent)
    (hc : c ∈ s.chunks) :
    (∃ names, (c.expand s config).outcome = .error (.cycle names)) ↔ s.ReachesCircle c.key := by
  cases hx : (c.expand s config).outcome with
  | ok x => simp [not_reachesCircle_of_expand hs hc hx]
  | error e =>
    obtain ⟨walk, last, rfl, hlasso⟩ := lasso_of_expand hs hc hx
    simp [hlasso.reachesCircle]

namespace Store

variable {s : Store}

/-- The key under which a chunk is found is its own. -/
theorem Consistent.key_of_get? (hs : s.Consistent) {k : Key} {c : Chunk}
    (h : s.get? k = some c) : c.key = k :=
  Key.eq_iff.2 ⟨hs.kind _ c (List.mem_of_find?_eq_some h), name_of_get? h⟩

/-- In a linked store, every chunk has a tree, with a mark exactly if a circle can be
    reached from the chunk. -/
theorem IsLinked.exists_tree (hs : s.Consistent) (hl : s.IsLinked) {k : Key} {c : Chunk}
    (hc : s.get? k = some c) : ∃ t, s.tree k = .ok t ∧ (t.marked ↔ s.ReachesCircle k) := by
  have hrefers := hl k c hc
  have hclosed := hl.closed hs
  obtain ⟨f, hplanted⟩ := hclosed.exists_planted [k] (hclosed k c hc)
  refine ⟨⟨k, false, f⟩, tree_of_planted hc hplanted, ?_⟩
  have hmarked : Tree.marked ⟨k, false, f⟩ = f.marked := by
    simp [Tree.marked, Tree.toForest, Forest.marked]
  rw [hmarked]
  constructor
  · intro hm
    obtain ⟨walk, last, hlasso⟩ :=
      hplanted.lasso hl hm rfl (Trail.follows_start s k) fun l => (hrefers l).1
    exact hlasso.reachesCircle
  · intro hcircle
    by_contra hm
    have hacc := hplanted.acc hl (by simpa using hm)
    exact not_reachesCircle_of_acc (.intro _ fun l hr => hacc l ((hrefers l).2 hr)) hcircle

/-! ## Stores filled by documents -/

/-- A store as documents leave it. -/
structure Filled (s : Store) : Prop extends s.Consistent where
  /-- No chunk has links. -/
  unlinked : s.Unlinked
  /-- No line has a line feed. -/
  unbroken : ∀ c ∈ s.chunks, ∀ o ∈ c.occurrences, o.Unbroken

/-- The store that documents fill, one after the other, whether or not they have
    errors. -/
def ofDocuments (documents : List (Path × Text)) : Store :=
  run (documents.map fun d => .read d.1 d.2) {}

theorem run_reads_registers (documents : List (Path × Text)) (s : Store) :
    ReflTransGen (Registers Occurrence.Unbroken) s
      (run (documents.map fun d => .read d.1 d.2) s) := by
  induction documents generalizing s with
  | nil => exact .refl
  | cons d documents ih => exact (Document.read_registers d.1 d.2 s).trans (ih _)

theorem Filled.ofDocuments (documents : List (Path × Text)) :
    (ofDocuments documents).Filled := by
  have hrun := run_reads_registers documents {}
  rw [Store.ofDocuments]
  generalize run (documents.map fun d => .read d.1 d.2) {} = s at hrun ⊢
  induction hrun with
  | refl =>
    exact ⟨.empty, fun _ h => absurd h List.not_mem_nil, fun _ h => absurd h List.not_mem_nil⟩
  | tail _ hr ih =>
    refine ⟨ih.toConsistent.registers hr, ih.unlinked.registers hr, ?_⟩
    refine hr.forall_chunks ?_ ?_ ?_ ih.unbroken
    · exact fun _ _ _ _ hfirst => List.forall_mem_singleton.2 hfirst
    · exact fun _ _ ho hc => List.forall_mem_append.2 ⟨hc, List.forall_mem_singleton.2 ho⟩
    · exact fun c text hc => (c.occurrences_setShebang text).symm ▸ hc

end Store

/-- A chunk without line feeds in its lines has the references in its lines. -/
theorem Chunk.hasReference_iff_body {c : Chunk} (h : ∀ o ∈ c.occurrences, o.Unbroken)
    {r : Reference} :
    c.HasReference r ↔ ∃ line ∈ c.body, Reference.parse? line = some r := by
  constructor
  · rintro ⟨o, ho, line, hline, hp⟩
    exact ⟨line.2, (mem_body_iff h).2 ⟨o, ho, line, hline, rfl⟩, hp⟩
  · rintro ⟨text, htext, hp⟩
    obtain ⟨o, ho, line, hline, rfl⟩ := (mem_body_iff h).1 htext
    exact ⟨o, ho, line, hline, hp⟩

namespace Store

variable {s : Store} {c : Chunk}

/-- A chunk refers to what its references stand for. -/
theorem refers_iff_hasReference {k l : Key} (hc : s.get? k = some c) :
    s.Refers k l ↔ ∃ r, c.HasReference r ∧ ∃ b, s.lookup r.name = some b ∧ b.key = l := by
  constructor
  · rintro ⟨hc', ho, hline, hp, hb⟩
    cases hc.symm.trans hc'
    exact ⟨_, ⟨_, ho, _, hline, hp⟩, _, hb, rfl⟩
  · rintro ⟨r, ⟨o, ho, line, hline, hp⟩, b, hb, rfl⟩
    exact .line hc ho hline hp hb

/-- The targets of a chunk are the chunks that it refers to. -/
theorem mem_targets_iff_refers {k l : Key} (hc : s.get? k = some c)
    (h : ∀ o ∈ c.occurrences, o.Unbroken) : l ∈ s.targets c ↔ s.Refers k l := by
  rw [mem_targets_iff, refers_iff_hasReference hc]
  constructor
  · rintro ⟨line, hline, r, hp, hb⟩
    exact ⟨r, (Chunk.hasReference_iff_body h).2 ⟨line, hline, hp⟩, hb⟩
  · rintro ⟨r, hr, hb⟩
    obtain ⟨line, hline, hp⟩ := (Chunk.hasReference_iff_body h).1 hr
    exact ⟨line, hline, r, hp, hb⟩

/-- The children of a chunk are found exactly if none of its lines refers to nothing. -/
theorem exists_childrenOf_iff :
    (∃ keys, s.childrenOf c = .ok keys) ↔ c.body.findSome? s.missing? = none := by
  have hchildren := childrenOf_eq s c
  cases hm : c.body.findSome? s.missing? with
  | none => simp [hchildren, hm]
  | some name => simp [hchildren, hm]

/-- Linking succeeds exactly if the children of all chunks are found. -/
theorem exists_link_iff :
    (∃ linked, s.link.outcome = .ok linked) ↔
      ∀ c ∈ s.chunks, ∃ keys, s.childrenOf c = .ok keys := by
  have hnone : s.dangling? = none ↔ ∀ c ∈ s.chunks, ∃ keys, s.childrenOf c = .ok keys := by
    simp only [dangling?, List.findSome?_eq_none_iff, Option.map_eq_none_iff, exists_childrenOf_iff]
  rw [← hnone]
  cases hd : s.dangling? with
  | none => exact ⟨fun _ => rfl, fun _ => ⟨_, link_of_dangling?_eq_none hd⟩⟩
  | some first =>
    have hlink := link_of_dangling?_eq_some hd
    simp [hlink]

namespace Filled

/-- In the linked store, the children of a chunk are the chunks that it refers to. -/
theorem isLinked (h : s.Filled) : s.linked.IsLinked := by
  intro k c hc l
  obtain ⟨a, ha, rfl⟩ := Option.map_eq_some_iff.1 ((get?_linked s k).symm.trans hc)
  have hchild : l ∈ (s.withLinks a).children ↔ l ∈ s.targets a := List.mem_eraseDups
  rw [hchild, ← targets_linked]
  exact mem_targets_iff_refers hc (h.unbroken a (mem_chunks_of_get? ha))

/-- The children of a chunk are found exactly if all its references have a chunk. -/
theorem exists_childrenOf_iff (h : s.Filled) (hc : c ∈ s.chunks) :
    (∃ keys, s.childrenOf c = .ok keys) ↔ ∀ r, c.HasReference r → s.lookup r.name ≠ none := by
  rw [Store.exists_childrenOf_iff, List.findSome?_eq_none_iff]
  simp only [missing?, Option.bind_eq_none_iff, Chunk.hasReference_iff_body (h.unbroken c hc)]
  constructor
  · rintro hnone r ⟨line, hline, hp⟩ hl
    simpa [hl] using hnone line hline r hp
  · intro hsome line hline r hp
    rw [if_neg (hsome r ⟨line, hline, hp⟩)]

/-- An expansion leaves no reference unresolved exactly if the children are found of all
    chunks that are reached. -/
theorem unresolved_eq_nil_iff (h : s.Filled) (hc : c ∈ s.chunks) {config : Config} {x : Expansion}
    (hx : (c.expand s config).outcome = .ok x) :
    x.unresolved = [] ↔ ∀ a, ReflTransGen s.Cites c a → ∃ keys, s.childrenOf a = .ok keys := by
  obtain ⟨u, hu, rfl⟩ := Chunk.unfolds_of_expand hx
  have hreached (r : Reference) : r ∈ u.references ↔ s.Reaches c r := by
    rw [hu.mem_references_iff, reaches_iff]
  rw [hu.unresolved_eq_nil_iff]
  simp only [hreached]
  constructor
  · intro hall a ha
    rw [h.exists_childrenOf_iff (mem_chunks_of_reflTransGen ha hc)]
    exact fun r hr => hall r ⟨a, ha, hr⟩
  · rintro hall r ⟨a, ha, hr⟩
    exact (h.exists_childrenOf_iff (mem_chunks_of_reflTransGen ha hc)).1 (hall a ha) r hr

end Filled

/-- The links of a store that documents have filled, and the expansions of its chunks,
    come to the same: there is a mark in the tree of a chunk exactly if its expansion
    goes in a circle, and an expansion leaves something unresolved exactly if a chunk
    that is reached has no children to be found. -/
theorem links_agree_with_expansion (documents : List (Path × Text)) :
    let s := ofDocuments documents
    ((∃ linked, s.link.outcome = .ok linked) ↔
      ∀ c ∈ s.chunks, ∃ keys, s.childrenOf c = .ok keys) ∧
    (∀ s' n, s.link.outcome = .ok (s', n) → ∀ k c, s'.get? k = some c →
      ∃ t, s'.tree k = .ok t ∧ ∀ config,
        (t.marked ↔ ∃ names, (c.expand s' config).outcome = .error (.cycle names))) ∧
    ∀ c ∈ s.chunks, ∀ config x, (c.expand s config).outcome = .ok x →
      (x.unresolved = [] ↔
        ∀ a, ReflTransGen s.Cites c a → ∃ keys, s.childrenOf a = .ok keys) := by
  intro s
  have hs : s.Filled := .ofDocuments documents
  refine ⟨exists_link_iff, fun s' n hlink k c hc => ?_, fun c hc config x => ?_⟩
  · obtain ⟨-, rfl, -⟩ := (hs.toConsistent.link_eq_ok_iff hs.unlinked).1 hlink
    have hlinked := hs.toConsistent.linked
    obtain ⟨t, ht, hmarked⟩ := hs.isLinked.exists_tree hlinked hc
    refine ⟨t, ht, fun config => ?_⟩
    rw [hmarked, ← hlinked.key_of_get? hc,
      Chunk.expand_eq_cycle_iff hlinked (mem_chunks_of_get? hc)]
  · exact hs.unresolved_eq_nil_iff hc

/-- Two chunks that refer to each other. -/
def circular : List (Path × Text) :=
  [(⟨['d']⟩, "@<a@> = c\n@<b@>\n@\n@<b@> = c\n @<a@>;\n@\n".toList)]

theorem links_of_circular :
    let s := (ofDocuments circular).linked
    let a : Key := ⟨.fragment, .ofText ['a']⟩
    let b : Key := ⟨.fragment, .ofText ['b']⟩
    s.tree a = .ok ⟨a, false, .cons b false (.cons a true .nil .nil) .nil⟩ ∧
      ∃ c, s.get? a = some c ∧ ∃ names, (c.expand s {}).outcome = .error (.cycle names) := by
  intro s a b
  obtain ⟨-, htrees, -⟩ := links_agree_with_expansion circular
  have hlink : (ofDocuments circular).link.outcome = .ok (s, 2) := by decide
  have hplanted : Forest.Planted s [a] [b] (.cons b false (.cons a true .nil .nil) .nil) :=
    .first (by decide) rfl (.again (by decide) .nil) .nil
  obtain ⟨c, hc, hchildren⟩ : ∃ c, s.get? a = some c ∧ c.children = [b] := ⟨_, rfl, by decide⟩
  have htree := tree_of_planted hc (hchildren ▸ hplanted)
  obtain ⟨t, ht, hmarked⟩ := htrees s 2 hlink a c hc
  cases htree.symm.trans ht
  exact ⟨htree, c, hc, (hmarked {}).1 rfl⟩

end Store

end Tangle
