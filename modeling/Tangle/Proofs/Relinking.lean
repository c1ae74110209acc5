import Tangle.Proofs.Trees

/-!
# Linking again

A store may be linked, filled with more chunks, and linked again. Linking only ever adds links
to those that are there (`Store.relinked`), so a link stays even if the name in the reference
comes to stand for another chunk. That happens in one way only: the link leads to a file, and
then a fragment of the same name is defined. The link is then *shadowed* (`Store.Shadowed`).

Apart from that, links are as if they had never been made before. What is kept by everything
that is done to a store is that its links are *accounted for* (`Store.Accounted`):

* a link is recorded at both of its ends, and both are chunks of the store;
* a chunk refers to the names of its children, and unless one of them is shadowed they stand
  in the order of the first references.

The order is that of the names, which do not depend on what is in the store. Therefore a chunk
has the children that its references give exactly if none of them is shadowed
(`Store.Accounted.children_eq_iff`), and fragments, which are never shadowed, have a parent
exactly if there is a reference to them (`Store.Accounted.unreferenced_relinked`).
-/

namespace Tangle

open Relation

/-! ## Lists of keys -/

namespace Key

variable {keys more : List Key}

theorem mem_foldl_adjoin {k : Key} : k ∈ more.foldl adjoin keys ↔ k ∈ keys ∨ k ∈ more := by
  induction more generalizing keys with
  | nil => simp
  | cons l more ih =>
    rw [List.foldl_cons, ih, adjoin]
    split <;> grind

/-- Keys that begin with those that are there replace them. -/
theorem foldl_adjoin_of_prefix (h : keys <+: more) (hm : more.Nodup) :
    more.foldl adjoin keys = more := by
  obtain ⟨rest, rfl⟩ := h
  rw [List.foldl_append, foldl_adjoin_of_subset (List.Subset.refl _), foldl_adjoin_of_nodup hm]

end Key

/-- Repetitions may be left out before or after names are replaced by keys, if the keys have
    those names. -/
theorem eraseDups_filterMap {f : Name → Option Key} (hf : ∀ name k, f name = some k → k.name = name)
    (names : List Name) : (names.filterMap f).eraseDups = names.eraseDups.filterMap f := by
  match names with
  | [] => rfl
  | name :: names =>
    have ih := eraseDups_filterMap hf (names.filter fun other => !other == name)
    rw [List.eraseDups_cons]
    cases hk : f name with
    | none =>
      -- The names that are left out would be lost anyway.
      have hlost : (names.filter fun other => !other == name).filterMap f = names.filterMap f := by
        rw [List.filterMap_filter]
        refine List.filterMap_congr fun other _ => ?_
        by_cases e : other = name <;> simp [e, hk]
      rw [List.filterMap_cons_none hk, List.filterMap_cons_none hk, ← ih, hlost]
    | some k =>
      have hkept : (names.filter fun other => !other == name).filterMap f =
          (names.filterMap f).filter fun l => !l == k := by
        rw [List.filterMap_filter, List.filter_filterMap]
        refine List.filterMap_congr fun other _ => ?_
        cases hl : f other with
        | none => simp
        | some l =>
          have hiff : other = name ↔ l = k := by
            constructor
            · rintro rfl
              exact Option.some.inj (hl.symm.trans hk)
            · rintro rfl
              rw [← hf other l hl, hf name l hk]
          by_cases e : l = k <;> simp [Option.filter, e, hiff]
      rw [List.filterMap_cons_some hk, List.filterMap_cons_some hk, List.eraseDups_cons, ← ih,
        hkept]
termination_by names.length
decreasing_by
  simp only [List.length_cons]
  exact Nat.lt_succ_of_le (List.length_filter_le _ _)

namespace Store

variable {s s' : Store} {k : Key} {c : Chunk}

/-! ## What names stand for -/

/-- The key of the chunk that a name stands for. -/
def resolve? (s : Store) (name : Name) : Option Key := (s.lookup name).map (·.key)

/-- There is a fragment that a reference to the file stands for. -/
def Shadowed (s : Store) (k : Key) : Prop := k.kind = .file ∧ s.get? ⟨.fragment, k.name⟩ ≠ none

instance (s : Store) (k : Key) : Decidable (s.Shadowed k) := inferInstanceAs (Decidable (_ ∧ _))

theorem name_of_resolve? {name : Name} (h : s.resolve? name = some k) : k.name = name := by
  obtain ⟨b, hb, rfl⟩ := Option.map_eq_some_iff.1 h
  rcases Option.or_eq_some_iff.1 hb with hb | ⟨-, hb⟩ <;> exact name_of_get? hb

/-- A chunk is what its name stands for exactly if it is not shadowed. -/
theorem Consistent.resolve?_eq_some_iff (hs : s.Consistent) {name : Name} :
    s.resolve? name = some k ↔ k.name = name ∧ s.get? k ≠ none ∧ ¬s.Shadowed k := by
  constructor
  · intro h
    obtain ⟨b, hb, rfl⟩ := Option.map_eq_some_iff.1 h
    have hname : b.key.name = name := name_of_resolve? h
    refine ⟨hname, by simp [hs.get?_key (mem_chunks_of_lookup hb)], ?_⟩
    rintro ⟨hkind, hfragment⟩
    obtain ⟨a, ha⟩ := Option.ne_none_iff_exists'.1 hfragment
    -- The name stands for the fragment, which is no file.
    rw [hname] at ha
    rw [lookup, ha, Option.some_or] at hb
    cases hb
    rw [hs.key_of_get? ha] at hkind
    cases hkind
  · rintro ⟨rfl, hsome, hshadow⟩
    obtain ⟨c, hc⟩ := Option.ne_none_iff_exists'.1 hsome
    have hlookup : s.lookup k.name = some c := by
      obtain ⟨kind, name⟩ := k
      cases kind with
      | fragment => rw [lookup, hc, Option.some_or]
      | file =>
        have hnone : s.get? ⟨.fragment, name⟩ = none := by
          by_contra hfragment
          exact hshadow ⟨rfl, hfragment⟩
        rw [lookup, hnone, Option.none_or, hc]
    rw [resolve?, hlookup, Option.map_some, hs.key_of_get? hc]

/-- The targets of a chunk are what the names in its references stand for. -/
theorem targets_eq_filterMap (s : Store) (c : Chunk) :
    s.targets c = (references c).filterMap s.resolve? := by
  rw [targets, references, List.filterMap_filterMap]
  refine List.filterMap_congr fun line _ => ?_
  rw [target?]
  cases Reference.parse? line <;> rfl

theorem eraseDups_targets (s : Store) (c : Chunk) :
    (s.targets c).eraseDups = (references c).eraseDups.filterMap s.resolve? := by
  rw [targets_eq_filterMap, eraseDups_filterMap fun _ _ => name_of_resolve?]

/-- If all references have a chunk, the names of the targets are those in the references. -/
theorem map_name_targets (hall : ∀ name ∈ references c, s.lookup name ≠ none) :
    (s.targets c).eraseDups.map (·.name) = (references c).eraseDups := by
  rw [eraseDups_targets, List.map_filterMap]
  refine (List.filterMap_congr fun name hname => ?_).trans List.filterMap_some
  obtain ⟨b, hb⟩ := Option.ne_none_iff_exists'.1 (hall name (List.mem_eraseDups.1 hname))
  have hkey : s.resolve? name = some b.key := by rw [resolve?, hb, Option.map_some]
  rw [hkey, Option.map_some, name_of_resolve? hkey]

theorem lookup_ne_none_of_mem_references (hd : s.dangling? = none) (hc : c ∈ s.chunks) :
    ∀ name ∈ references c, s.lookup name ≠ none := by
  intro name hname hnone
  obtain ⟨line, hline, hname⟩ := List.mem_filterMap.1 hname
  obtain ⟨r, hp, rfl⟩ := Option.map_eq_some_iff.1 hname
  exact dangling?_ne_none_iff.2 ⟨c, hc, line, hline, r, hp, hnone⟩ hd

theorem childrenOf_of_dangling?_eq_none (hd : s.dangling? = none) (hc : c ∈ s.chunks) :
    s.childrenOf c = .ok (s.targets c).eraseDups := by
  have hnone := List.findSome?_eq_none_iff.1 hd c hc
  rw [childrenOf_eq, Option.map_eq_none_iff.1 hnone]

/-! ## The store linked again -/

/-- The chunk with its links in the store, besides those that it has. -/
def withMoreLinks (s : Store) (c : Chunk) : Chunk :=
  { c with
    parents := (s.withLinks c).parents.foldl Key.adjoin c.parents
    children := (s.withLinks c).children.foldl Key.adjoin c.children }

/-- The store with all its links, besides those that it has. -/
def relinked (s : Store) : Store := s.mapChunks s.withMoreLinks

/-- Linking adds the links that there are to those that were there. -/
theorem Consistent.link_eq_relinked (hs : s.Consistent) {n : Nat}
    (h : s.link.outcome = .ok (s', n)) : s.dangling? = none ∧ s' = s.relinked := by
  cases hd : s.dangling? with
  | some first => cases (link_of_dangling?_eq_some hd).symm.trans h
  | none =>
    cases (link_of_dangling?_eq_none hd).symm.trans h
    refine ⟨rfl, ?_⟩
    rw [hs.foldl_addLink_eq]
    exact mapChunks_congr fun c hc => hs.foldl_record_allLinks hc rfl

theorem Consistent.relinked (hs : s.Consistent) : s.relinked.Consistent :=
  hs.mapChunks (fun _ => rfl) fun _ => rfl

theorem get?_relinked (s : Store) (k : Key) :
    s.relinked.get? k = (s.get? k).map s.withMoreLinks :=
  get?_mapChunks (f := s.withMoreLinks) (fun _ => rfl) k

theorem chunks_relinked (s : Store) : s.relinked.chunks = s.chunks.map s.withMoreLinks :=
  chunks_mapChunks _

theorem targets_relinked (s : Store) (c : Chunk) :
    s.relinked.targets (s.withMoreLinks c) = s.targets c := by
  rw [targets, relinked, target?_mapChunks (f := s.withMoreLinks) fun _ => rfl]
  rfl

theorem dangling?_relinked (s : Store) : s.relinked.dangling? = s.dangling? :=
  dangling?_mapChunks (fun _ => rfl) fun _ => rfl

theorem shadowed_relinked_iff : s.relinked.Shadowed k ↔ s.Shadowed k := by
  simp [Shadowed, get?_relinked]

theorem mem_children_withMoreLinks :
    k ∈ (s.withMoreLinks c).children ↔ k ∈ c.children ∨ k ∈ s.targets c := by
  rw [withMoreLinks, Key.mem_foldl_adjoin, withLinks, List.mem_eraseDups]

theorem mem_parents_withMoreLinks :
    k ∈ (s.withMoreLinks c).parents ↔
      k ∈ c.parents ∨ ∃ p ∈ s.chunks, c.key ∈ s.targets p ∧ p.key = k := by
  rw [withMoreLinks, Key.mem_foldl_adjoin]
  simp [withLinks, and_assoc]

/-! ## Links that are accounted for -/

/-- The links of the store are recorded at both ends, and accounted for by references. -/
structure Accounted (s : Store) : Prop extends s.Consistent where
  /-- A child is in the store, and has the chunk as a parent. -/
  children : ∀ k c, s.get? k = some c → ∀ l ∈ c.children, ∃ d, s.get? l = some d ∧ k ∈ d.parents
  /-- A parent is in the store, and has the chunk as a child. -/
  parents : ∀ k c, s.get? k = some c → ∀ l ∈ c.parents, ∃ d, s.get? l = some d ∧ k ∈ d.children
  /-- A chunk refers to the names of its children. -/
  named : ∀ k c, s.get? k = some c → ∀ l ∈ c.children, l.name ∈ references c
  /-- If no child is shadowed, the children stand in the order of the first references. -/
  ordered : ∀ k c, s.get? k = some c → (∀ l ∈ c.children, ¬s.Shadowed l) →
    c.children.map (·.name) <+: (references c).eraseDups

theorem get?_empty (k : Key) : ({} : Store).get? k = none := by
  obtain ⟨_ | _, name⟩ := k <;> rfl

theorem Accounted.empty : ({} : Store).Accounted where
  toConsistent := .empty
  children k c h := by cases (get?_empty k).symm.trans h
  parents k c h := by cases (get?_empty k).symm.trans h
  named k c h := by cases (get?_empty k).symm.trans h
  ordered k c h := by cases (get?_empty k).symm.trans h

end Store

/-- The chunk has become another one with the same links, and more code at its end. -/
structure Chunk.Grows (c c' : Chunk) : Prop where
  /-- The parents are the same. -/
  parents : c'.parents = c.parents
  /-- The children are the same. -/
  children : c'.children = c.children
  /-- References are only added at the end. -/
  references : Store.references c <+: Store.references c'

theorem Chunk.Grows.append (c : Chunk) (o : Occurrence) : c.Grows (c.append o) where
  parents := rfl
  children := rfl
  references := by
    rw [Store.references, Store.references, body, body, Chunk.append, List.flatMap_append,
      List.filterMap_append]
    exact List.prefix_append _ _

theorem Chunk.Grows.setShebang (c : Chunk) (text : Text) : c.Grows (c.setShebang text) := by
  rw [Chunk.setShebang]
  split <;> exact ⟨rfl, rfl, List.prefix_rfl⟩

namespace Store

variable {s s' : Store} {k : Key} {c : Chunk}

/-- Where something is registered, a chunk is there and grows, or else there is none or a new
    one without links. -/
theorem Registers.get?_cases {Q : Occurrence → Prop} (h : Registers Q s s') (k : Key) :
    (∃ c c', s.get? k = some c ∧ s'.get? k = some c' ∧ c.Grows c') ∨
      s.get? k = none ∧ ∀ c', s'.get? k = some c' → c'.parents = [] ∧ c'.children = [] := by
  have hupdate (l : Key) {f : Chunk → Chunk} (hname : ∀ c, (f c).name = c.name)
      (hf : ∀ c : Chunk, c.Grows (f c)) :
      (∃ c c', s.get? k = some c ∧ (s.update l f).get? k = some c' ∧ c.Grows c') ∨
        s.get? k = none ∧
          ∀ c', (s.update l f).get? k = some c' → c'.parents = [] ∧ c'.children = [] := by
    rw [get?_update hname]
    cases hc : s.get? k with
    | none => simp
    | some c =>
      refine .inl ⟨c, if k = l then f c else c, rfl, by split <;> rfl, ?_⟩
      split
      · exact hf c
      · exact ⟨rfl, rfl, List.prefix_rfl⟩
  cases h with
  | define name language role _ hd =>
    rw [get?_of_define hd]
    split
    · rename_i hk
      refine .inr ⟨hk ▸ (define_eq_ok_iff.1 hd).1, ?_⟩
      rintro c' ⟨⟩
      exact ⟨rfl, rfl⟩
    · cases hc : s.get? k with
      | none => simp
      | some c => exact .inl ⟨c, c, rfl, rfl, rfl, rfl, List.prefix_rfl⟩
  | extend l _ he =>
    obtain ⟨-, rfl⟩ := extend_eq_ok_iff.1 he
    exact hupdate l (fun _ => rfl) fun c => .append c _
  | setShebang l text =>
    exact hupdate l (Chunk.name_setShebang · text) (Chunk.Grows.setShebang · text)

namespace Accounted

/-- Registering keeps the links accounted for. -/
theorem registers {Q : Occurrence → Prop} (h : s.Accounted) (hr : Registers Q s s') :
    s'.Accounted := by
  -- A chunk with links was there before, with the same links.
  have hlinked {k : Key} {c' : Chunk} (hc' : s'.get? k = some c')
      (hlinks : ¬(c'.parents = [] ∧ c'.children = [])) : ∃ c, s.get? k = some c ∧ c.Grows c' := by
    rcases hr.get?_cases k with ⟨c, c'', hc, hc'', hgrows⟩ | ⟨-, hnew⟩
    · cases hc'.symm.trans hc''
      exact ⟨c, hc, hgrows⟩
    · exact absurd (hnew c' hc') hlinks
  have hkept {k : Key} {c : Chunk} (hc : s.get? k = some c) :
      ∃ c', s'.get? k = some c' ∧ c.Grows c' := by
    rcases hr.get?_cases k with ⟨c₁, c', hc₁, hc', hgrows⟩ | ⟨hnone, -⟩
    · cases hc.symm.trans hc₁
      exact ⟨c', hc', hgrows⟩
    · cases hc.symm.trans hnone
  refine ⟨h.toConsistent.registers hr, ?_, ?_, ?_, ?_⟩
  · intro k c' hc' l hl
    obtain ⟨c, hc, hgrows⟩ := hlinked hc' fun hn => by simp [hn.2] at hl
    obtain ⟨d, hd, hk⟩ := h.children k c hc l (hgrows.children ▸ hl)
    obtain ⟨d', hd', hgrows'⟩ := hkept hd
    exact ⟨d', hd', hgrows'.parents.symm ▸ hk⟩
  · intro k c' hc' l hl
    obtain ⟨c, hc, hgrows⟩ := hlinked hc' fun hn => by simp [hn.1] at hl
    obtain ⟨d, hd, hk⟩ := h.parents k c hc l (hgrows.parents ▸ hl)
    obtain ⟨d', hd', hgrows'⟩ := hkept hd
    exact ⟨d', hd', hgrows'.children.symm ▸ hk⟩
  · intro k c' hc' l hl
    obtain ⟨c, hc, hgrows⟩ := hlinked hc' fun hn => by simp [hn.2] at hl
    exact hgrows.references.subset (h.named k c hc l (hgrows.children ▸ hl))
  · intro k c' hc' hshadow
    by_cases hn : c'.children = []
    · rw [hn]
      exact List.nil_prefix
    · obtain ⟨c, hc, hgrows⟩ := hlinked hc' fun hlinks => hn hlinks.2
      rw [hgrows.children] at hshadow ⊢
      -- A fragment that is there stays there, so nothing was shadowed before either.
      have hbefore := h.ordered k c hc fun l hl hs => hshadow l hl ⟨hs.1, fun hnone => by
        obtain ⟨f, hf⟩ := Option.ne_none_iff_exists'.1 hs.2
        obtain ⟨f', hf', -⟩ := hkept hf
        cases hf'.symm.trans hnone⟩
      obtain ⟨more, hmore⟩ := hgrows.references
      rw [← hmore, List.eraseDups_append]
      exact hbefore.trans (List.prefix_append _ _)

/-! ### Children and targets -/

/-- Once a chunk is linked, its targets are those of its children that are not shadowed. -/
theorem mem_targets_iff (h : s.Accounted) (hc : s.get? k = some c) {l : Key} :
    l ∈ s.targets c ↔ l ∈ (s.withMoreLinks c).children ∧ ¬s.Shadowed l := by
  rw [mem_children_withMoreLinks, targets_eq_filterMap, List.mem_filterMap]
  constructor
  · rintro ⟨name, hname, hl⟩
    exact ⟨.inr ⟨name, hname, hl⟩, (h.resolve?_eq_some_iff.1 hl).2.2⟩
  · rintro ⟨hl | hl, hshadow⟩
    · obtain ⟨d, hd, -⟩ := h.children k c hc l hl
      exact ⟨l.name, h.named k c hc l hl, h.resolve?_eq_some_iff.2 ⟨rfl, by simp [hd], hshadow⟩⟩
    · exact hl

/-- Children none of which is shadowed are the first of those that the references give. -/
theorem children_prefix (h : s.Accounted) (hc : s.get? k = some c)
    (hshadow : ∀ l ∈ c.children, ¬s.Shadowed l) : c.children <+: (s.targets c).eraseDups := by
  -- Every child is what its name stands for, and the names are in the right order.
  have hself : (c.children.map (·.name)).filterMap s.resolve? = c.children := by
    rw [List.filterMap_map]
    refine (List.filterMap_congr fun l hl => ?_).trans List.filterMap_some
    obtain ⟨d, hd, -⟩ := h.children k c hc l hl
    exact h.resolve?_eq_some_iff.2 ⟨rfl, by simp [hd], hshadow l hl⟩
  rw [eraseDups_targets, ← hself]
  exact (h.ordered k c hc hshadow).filterMap _

/-- Once a chunk is linked, its children are those that its references give exactly if none of
    them is shadowed. -/
theorem children_eq_iff (h : s.Accounted) (hc : s.get? k = some c) :
    (s.withMoreLinks c).children = (s.targets c).eraseDups ↔
      ∀ l ∈ (s.withMoreLinks c).children, ¬s.Shadowed l := by
  constructor
  · intro heq l hl
    rw [heq, List.mem_eraseDups, h.mem_targets_iff hc] at hl
    exact hl.2
  · intro hshadow
    have hprefix := h.children_prefix hc fun l hl =>
      hshadow l (mem_children_withMoreLinks.2 (.inl hl))
    exact Key.foldl_adjoin_of_prefix hprefix (nodup_eraseDups _)

/-! ### Linking -/

/-- Linking keeps the links accounted for. -/
theorem relinked (h : s.Accounted) (hd : s.dangling? = none) : s.relinked.Accounted := by
  have hget {k : Key} {c' : Chunk} (hc' : s.relinked.get? k = some c') :
      ∃ c, s.get? k = some c ∧ s.withMoreLinks c = c' :=
    Option.map_eq_some_iff.1 ((get?_relinked s k).symm.trans hc')
  have hset {k : Key} {c : Chunk} (hc : s.get? k = some c) :
      s.relinked.get? k = some (s.withMoreLinks c) := by
    rw [get?_relinked, hc, Option.map_some]
  refine ⟨h.toConsistent.relinked, ?_, ?_, ?_, ?_⟩
  · intro k c' hc' l hl
    obtain ⟨c, hc, rfl⟩ := hget hc'
    rcases mem_children_withMoreLinks.1 hl with hl | hl
    · obtain ⟨d, hd, hk⟩ := h.children k c hc l hl
      exact ⟨_, hset hd, mem_parents_withMoreLinks.2 (.inl hk)⟩
    · obtain ⟨line, -, r, -, d, hd, rfl⟩ := Store.mem_targets_iff.1 hl
      refine ⟨_, hset (h.get?_key (mem_chunks_of_lookup hd)), ?_⟩
      exact mem_parents_withMoreLinks.2 (.inr ⟨c, mem_chunks_of_get? hc, hl, h.key_of_get? hc⟩)
  · intro k c' hc' l hl
    obtain ⟨c, hc, rfl⟩ := hget hc'
    rcases mem_parents_withMoreLinks.1 hl with hl | ⟨p, hp, ht, rfl⟩
    · obtain ⟨d, hd, hk⟩ := h.parents k c hc l hl
      exact ⟨_, hset hd, mem_children_withMoreLinks.2 (.inl hk)⟩
    · refine ⟨_, hset (h.get?_key hp), mem_children_withMoreLinks.2 (.inr ?_)⟩
      rwa [← h.key_of_get? hc]
  · intro k c' hc' l hl
    obtain ⟨c, hc, rfl⟩ := hget hc'
    rcases mem_children_withMoreLinks.1 hl with hl | hl
    · exact h.named k c hc l hl
    · rw [targets_eq_filterMap] at hl
      obtain ⟨name, hname, hl⟩ := List.mem_filterMap.1 hl
      rw [name_of_resolve? hl]
      exact hname
  · intro k c' hc' hshadow
    obtain ⟨c, hc, rfl⟩ := hget hc'
    simp only [shadowed_relinked_iff] at hshadow
    have hall := lookup_ne_none_of_mem_references hd (mem_chunks_of_get? hc)
    rw [(h.children_eq_iff hc).2 hshadow, map_name_targets hall]
    exact List.prefix_rfl

/-- An operation keeps the links accounted for. -/
theorem operation (h : s.Accounted) (op : Operation) : (op.run s).1.Accounted := by
  by_cases hop : op = .link
  · subst hop
    cases hl : s.link.outcome with
    | error e =>
      rw [Operation.run, hl]
      exact h
    | ok linked =>
      obtain ⟨hd, hlinked⟩ := h.link_eq_relinked hl
      rw [Operation.run, hl]
      exact hlinked ▸ h.relinked hd
  · have hregisters := run_operation_registers hop s
    generalize (op.run s).1 = s' at hregisters ⊢
    induction hregisters with
    | refl => exact h
    | tail _ hr ih => exact ih.registers hr

/-- Whatever is done to a store, its links stay accounted for. -/
theorem run (ops : List Operation) (h : s.Accounted) : (Store.run ops s).Accounted := by
  induction ops generalizing s with
  | nil => exact h
  | cons op ops ih => exact ih (h.operation op)

/-! ### Parents -/

/-- The parents of a chunk are the chunks that have it as a child. -/
theorem mem_parents_iff (h : s.Accounted) (hc : c ∈ s.chunks) {l : Key} :
    l ∈ c.parents ↔ ∃ p ∈ s.chunks, p.key = l ∧ c.key ∈ p.children := by
  have hget := h.get?_key hc
  constructor
  · intro hl
    obtain ⟨p, hp, hk⟩ := h.parents c.key c hget l hl
    exact ⟨p, mem_chunks_of_get? hp, h.key_of_get? hp, hk⟩
  · rintro ⟨p, hp, rfl, hk⟩
    obtain ⟨d, hd, hl⟩ := h.children p.key p (h.get?_key hp) c.key hk
    cases hget.symm.trans hd
    exact hl

/-- Once the store is linked, the fragments without parents are those that are no target. -/
theorem unreferenced_relinked (h : s.Accounted) :
    s.relinked.unreferenced =
      s.relinked.fragments.filter fun c => ∀ p ∈ s.chunks, c.key ∉ s.targets p := by
  refine List.filter_congr fun c hc => ?_
  obtain ⟨c, hmem, rfl⟩ := List.mem_map.1 hc
  have hchunk : c ∈ s.chunks := List.mem_append_left _ hmem
  have hfragment : c.key.kind = .fragment := h.kind .fragment c hmem
  have hkey : (s.withMoreLinks c).key = c.key := rfl
  rw [hkey, Bool.eq_iff_iff, List.isEmpty_iff, List.eq_nil_iff_forall_not_mem, decide_eq_true_iff]
  constructor
  · exact fun hnone p hp ht => hnone p.key (mem_parents_withMoreLinks.2 (.inr ⟨p, hp, ht, rfl⟩))
  · intro hnone l hl
    rcases mem_parents_withMoreLinks.1 hl with hl | ⟨p, hp, ht, -⟩
    · obtain ⟨p, hp, -, hk⟩ := (h.mem_parents_iff hchunk).1 hl
      -- No fragment is shadowed, so the parent refers to it still.
      refine hnone p hp ((h.mem_targets_iff (h.get?_key hp)).2 ⟨?_, fun hs => ?_⟩)
      · exact mem_children_withMoreLinks.2 (.inl hk)
      · cases hfragment.symm.trans hs.1
    · exact hnone p hp ht

end Accounted

/-! ## Trees -/

/-- Trees depend on the children of the chunks only. -/
theorem forest_congr (h : ∀ k, (s.get? k).map (·.children) = (s'.get? k).map (·.children))
    (path roots : List Key) : s.forest path roots = s'.forest path roots := by
  fun_induction forest s path roots with
  | case1 path => rw [forest]
  | case2 path k roots hp ih => rw [forest, dif_pos hp, ih]
  | case3 path k roots hp hc =>
    have hk := h k
    rw [hc] at hk
    rw [forest, dif_neg hp]
    split
    · rfl
    · rename_i hc'
      simp [hc'] at hk
  | case4 path k roots hp c hc _ ihBelow ihRest =>
    have hk := h k
    rw [hc] at hk
    obtain ⟨c', hc', hchildren⟩ := Option.map_eq_some_iff.1 hk.symm
    rw [forest, dif_neg hp]
    split
    · cases hc'.symm.trans ‹_›
    · rename_i hc''
      cases hc'.symm.trans hc''
      rw [hchildren, ihBelow, ihRest]

theorem tree_congr (h : ∀ k, (s.get? k).map (·.children) = (s'.get? k).map (·.children))
    (k : Key) : s.tree k = s'.tree k := by
  have hk := h k
  cases hc : s.get? k with
  | none =>
    rw [hc] at hk
    rw [tree, tree, hc, Option.map_eq_none_iff.1 hk.symm]
  | some c =>
    rw [hc] at hk
    obtain ⟨c', hc', hchildren⟩ := Option.map_eq_some_iff.1 hk.symm
    rw [tree, tree, hc, hc']
    simp only [hchildren, forest_congr h]

/-! ## Runs -/

/-- Whatever was done to a store before it is linked, also if it was linked already: the parents
    of a chunk are the chunks that have it as a child. The children that its references give
    are those of its children that are not shadowed, and they are its children in order exactly
    if none of them is shadowed. The fragments without parents are those that no reference
    stands for. If no child is shadowed, all trees are those of the store that is linked from
    the start. -/
theorem link_again (ops : List Operation) (s' : Store) (n : Nat)
    (hlink : (run ops {}).link.outcome = .ok (s', n)) :
    (∀ c ∈ s'.chunks, ∀ l, l ∈ c.parents ↔ ∃ p ∈ s'.chunks, p.key = l ∧ c.key ∈ p.children) ∧
    (∀ c ∈ s'.chunks, ∃ keys, s'.childrenOf c = .ok keys ∧
      (∀ l, l ∈ keys ↔ l ∈ c.children ∧ ¬s'.Shadowed l) ∧
      (c.children = keys ↔ ∀ l ∈ c.children, ¬s'.Shadowed l)) ∧
    s'.unreferenced = s'.fragments.filter (fun c => ∀ p ∈ s'.chunks, c.key ∉ s'.targets p) ∧
    ((∀ c ∈ s'.chunks, ∀ l ∈ c.children, ¬s'.Shadowed l) →
      ∀ k, s'.tree k = s'.linked.tree k) := by
  have hs : (run ops {}).Accounted := Accounted.empty.run ops
  generalize run ops {} = s at hlink hs
  obtain ⟨hd, rfl⟩ := hs.link_eq_relinked hlink
  have hd' : s.relinked.dangling? = none := (dangling?_relinked s).trans hd
  have hchunk {c : Chunk} (hc : c ∈ s.relinked.chunks) : ∃ a ∈ s.chunks, s.withMoreLinks a = c :=
    List.mem_map.1 (chunks_relinked s ▸ hc)
  refine ⟨fun c hc l => (hs.relinked hd).mem_parents_iff hc, fun c hc => ?_, ?_, ?_⟩
  · refine ⟨_, childrenOf_of_dangling?_eq_none hd' hc, ?_, ?_⟩
    all_goals obtain ⟨a, ha, rfl⟩ := hchunk hc
    · intro l
      rw [targets_relinked, List.mem_eraseDups, hs.mem_targets_iff (hs.get?_key ha),
        shadowed_relinked_iff]
    · rw [targets_relinked, hs.children_eq_iff (hs.get?_key ha)]
      simp only [shadowed_relinked_iff]
  · rw [hs.unreferenced_relinked, chunks_relinked]
    simp [targets_relinked]
  · intro hshadow
    refine tree_congr fun k => ?_
    simp only [get?_linked, get?_relinked, Option.map_map]
    refine Option.map_congr fun c hc => ?_
    have hrelinked : s.withMoreLinks c ∈ s.relinked.chunks := by
      rw [chunks_relinked]
      exact List.mem_map_of_mem (mem_chunks_of_get? hc)
    have hnone := hshadow _ hrelinked
    simp only [shadowed_relinked_iff] at hnone
    simp only [Function.comp_apply]
    rw [(hs.children_eq_iff hc).2 hnone, withLinks, targets_relinked]

/-- A fragment that refers to a file. -/
def early : Text := "@(x@) = c\ny\n@\n@<a@> = c\n@<x@>\n@\n".toList

/-- More of that fragment, with a reference to another one. -/
def further : Text := "@<a@> =+ c\n @<b@>\n@<x@>\n@\n@<b@> = c\nz\n@\n".toList

theorem link_again_further :
    let s := run [.read ⟨['d']⟩ early, .link, .read ⟨['e']⟩ further] {}
    s.link.outcome = .ok (s.relinked, 2) ∧
      (∀ c ∈ s.relinked.chunks, ∀ l ∈ c.children, ¬s.relinked.Shadowed l) ∧
      ∀ k, s.relinked.tree k = s.relinked.linked.tree k := by
  intro s
  have hlink : s.link.outcome = .ok (s.relinked, 2) := by decide
  have hshadow : ∀ c ∈ s.relinked.chunks, ∀ l ∈ c.children, ¬s.relinked.Shadowed l := by decide
  obtain ⟨-, -, -, htree⟩ := link_again _ s.relinked 2 hlink
  exact ⟨hlink, hshadow, htree hshadow⟩

/-- A fragment with the name of the file. -/
def late : Text := "@<x@> = c\nz\n@\n".toList

/-- If the fragment comes after the store is linked, the link to the file stays, though no
    reference stands for the file. -/
theorem link_keeps_shadowed :
    let s := run [.read ⟨['d']⟩ early, .link, .read ⟨['e']⟩ late] {}
    let x : Name := .ofText ['x']
    s.link.outcome = .ok (s.relinked, 1) ∧
      ∃ c, s.relinked.get? ⟨.fragment, .ofText ['a']⟩ = some c ∧
        s.relinked.childrenOf c = .ok [⟨.fragment, x⟩] ∧
        c.children = [⟨.file, x⟩, ⟨.fragment, x⟩] := by
  intro s x
  exact ⟨by decide, _, rfl, by decide, by decide⟩

end Store

end Tangle
