import Tangle.Proofs.Operations
import Mathlib.Algebra.Ring.Nat
import Mathlib.Data.List.Flatten

/-!
# Linking

What linking records, told chunk by chunk. The *targets* of a chunk are the keys that
its lines refer to, line by line (`Store.targets`). The links of the store follow from
them (`Store.linked`):

* the children of a chunk are its targets, each where it comes first;
* the parents of a chunk are the chunks that have it as a target, in the order of the
  store.

Linking fails exactly if there is a reference without a chunk, and names the first one
(`Store.dangling?`); otherwise it turns a store without links into the linked one
(`Store.link_of_dangling?_eq_none`). In a run, links are recorded one by one, each in two
chunks. As this concerns every chunk apart from the others, a chunk only sees the links
that begin or end at it (`Chunk.foldl_record`), and it meets them in the right order.
-/

namespace Tangle

/-! ## Lists of keys -/

theorem nodup_eraseDups (keys : List Key) : keys.eraseDups.Nodup := by
  match keys with
  | [] => exact List.nodup_nil
  | k :: keys =>
    rw [List.eraseDups_cons, List.nodup_cons]
    exact ⟨by simp, nodup_eraseDups _⟩
termination_by keys.length
decreasing_by
  simp only [List.length_cons]
  exact Nat.lt_succ_of_le (List.length_filter_le _ _)

namespace Key

/-- Keys that are all new are added one after the other. -/
theorem foldl_adjoin_of_nodup {keys more : List Key} (h : (keys ++ more).Nodup) :
    more.foldl adjoin keys = keys ++ more := by
  induction more generalizing keys with
  | nil => simp
  | cons k more ih =>
    have hk : k ∉ keys := fun hm =>
      List.disjoint_of_nodup_append h hm List.mem_cons_self
    rw [List.append_cons] at h ⊢
    rw [List.foldl_cons, adjoin, if_neg hk, ih h]

/-- Keys that are there already are not added. -/
theorem foldl_adjoin_of_subset {keys more : List Key} (h : more ⊆ keys) :
    more.foldl adjoin keys = keys := by
  induction more with
  | nil => rfl
  | cons k more ih =>
    obtain ⟨hk, hmore⟩ := List.cons_subset.1 h
    rw [List.foldl_cons, adjoin, if_pos hk, ih hmore]

end Key

/-- Items are counted key by key, if each has one of the keys. -/
theorem sum_length_filter {α : Type} {f : α → Key} {keys : List Key} (hkeys : keys.Nodup)
    {items : List α} (h : ∀ a ∈ items, f a ∈ keys) :
    (keys.map fun k => (items.filter (f · = k)).length).sum = items.length := by
  induction keys generalizing items with
  | nil =>
    rw [List.eq_nil_iff_forall_not_mem.2 fun a ha => List.not_mem_nil (h a ha)]
    rfl
  | cons k keys ih =>
    obtain ⟨hk, hkeys⟩ := List.nodup_cons.1 hkeys
    -- The items with another key are those that the other keys count.
    have hrest : ∀ a ∈ items.filter (¬f · = k), f a ∈ keys := by
      intro a ha
      obtain ⟨ha, hne⟩ := List.mem_filter.1 ha
      exact (List.mem_cons.1 (h a ha)).resolve_left (by simpa using hne)
    have hother : ∀ l ∈ keys, items.filter (f · = l) =
        (items.filter (¬f · = k)).filter (f · = l) := by
      intro l hl
      rw [List.filter_filter]
      refine List.filter_congr fun a _ => ?_
      have hne : l ≠ k := fun e => hk (e ▸ hl)
      by_cases e : f a = l <;> simp [e, hne]
    rw [List.map_cons, List.sum_cons, List.map_congr_left fun l hl => by rw [hother l hl],
      ih hkeys hrest]
    simpa using (List.length_eq_length_filter_add (f · = k)).symm

namespace Store

/-! ## References -/

variable (s : Store)

/-- The key of the chunk that a line refers to. -/
def target? (line : Text) : Option Key :=
  (Reference.parse? line).bind fun r => (s.lookup r.name).map (·.key)

/-- The name that a line refers to, if it has no chunk. -/
def missing? (line : Text) : Option Name :=
  (Reference.parse? line).bind fun r => if s.lookup r.name = none then some r.name else none

/-- The keys that the lines of a chunk refer to, line by line. -/
def targets (c : Chunk) : List Key := c.body.filterMap s.target?

/-- The first reference of the store without a chunk: the name, and that of the chunk
    that refers to it. -/
def dangling? : Option (Name × Name) :=
  s.chunks.findSome? fun c => (c.body.findSome? s.missing?).map (·, c.name)

/-- The links of the store, chunk by chunk. -/
def allLinks : List (Key × Key) :=
  s.chunks.flatMap fun p => (s.targets p).eraseDups.map (p.key, ·)

variable {s} {c : Chunk}

/-- Looking up the names in lines comes to the first one without a chunk, or to all
    targets. -/
theorem mapM_references (parent : Name) {f : Name → Except Error Key}
    (hok : ∀ name child, s.lookup name = some child → f name = .ok child.key)
    (herror : ∀ name, s.lookup name = none → f name = .error (.unresolved name parent))
    (lines : List Text) :
    (lines.filterMap fun line => (Reference.parse? line).map (·.name)).mapM f =
      match lines.findSome? s.missing? with
      | some name => .error (.unresolved name parent)
      | none => .ok (lines.filterMap s.target?) := by
  induction lines with
  | nil => rfl
  | cons line lines ih =>
    cases hp : Reference.parse? line with
    | none =>
      have hmissing : s.missing? line = none := by simp [missing?, hp]
      have htarget : s.target? line = none := by simp [target?, hp]
      rw [List.filterMap_cons_none (by simp [hp]), ih, List.findSome?_cons, hmissing,
        List.filterMap_cons_none htarget]
    | some r =>
      rw [List.filterMap_cons_some (by rw [hp]; rfl)]
      cases hl : s.lookup r.name with
      | none =>
        have hmissing : s.missing? line = some r.name := by simp [missing?, hp, hl]
        rw [mapM_cons_of_error (herror r.name hl), List.findSome?_cons, hmissing]
      | some child =>
        have hmissing : s.missing? line = none := by simp [missing?, hp, hl]
        have htarget : s.target? line = some child.key := by simp [target?, hp, hl]
        rw [mapM_cons_of_ok (hok r.name child hl), ih, List.findSome?_cons, hmissing,
          List.filterMap_cons_some htarget]
        cases lines.findSome? s.missing? <;> rfl

/-- The children of a chunk are its targets, each where it comes first, unless a
    reference has no chunk. -/
theorem childrenOf_eq (s : Store) (c : Chunk) :
    s.childrenOf c = match c.body.findSome? s.missing? with
      | some name => .error (.unresolved name c.name)
      | none => .ok (s.targets c).eraseDups := by
  rw [childrenOf, references, mapM_references (s := s) c.name
    (fun name child h => by rw [h]) (fun name h => by rw [h])]
  rw [targets]
  cases c.body.findSome? s.missing? <;> rfl

/-- The links are those of the chunks, in order, unless a reference has no chunk. -/
theorem links_eq (s : Store) :
    s.links = match s.dangling? with
      | some (name, parent) => .error (.unresolved name parent)
      | none => .ok s.allLinks := by
  have hmapM (l : List Chunk) :
      (l.mapM fun c => do return (← s.childrenOf c).map (c.key, ·)) =
        match l.findSome? fun c => (c.body.findSome? s.missing?).map (·, c.name) with
        | some (name, parent) => .error (.unresolved name parent)
        | none => .ok (l.map fun p => (s.targets p).eraseDups.map (p.key, ·)) := by
    induction l with
    | nil => rfl
    | cons c l ih =>
      have hc := childrenOf_eq s c
      rw [List.findSome?_cons]
      cases hm : c.body.findSome? s.missing? with
      | some name =>
        rw [hm] at hc
        rw [mapM_cons_of_error (e := .unresolved name c.name) (by rw [hc]; rfl)]
        rfl
      | none =>
        rw [hm] at hc
        rw [mapM_cons_of_ok (b := (s.targets c).eraseDups.map (c.key, ·)) (by rw [hc]; rfl), ih]
        simp only [Option.map_none, List.map_cons]
        cases l.findSome? fun c => (c.body.findSome? s.missing?).map (·, c.name) <;> rfl
  rw [links, hmapM, dangling?, allLinks, List.flatMap_def]
  cases s.chunks.findSome? fun c => (c.body.findSome? s.missing?).map (·, c.name) <;> rfl

/-- There is a first reference without a chunk exactly if there is one at all. -/
theorem dangling?_ne_none_iff :
    s.dangling? ≠ none ↔ ∃ c ∈ s.chunks, ∃ line ∈ c.body, ∃ r,
      Reference.parse? line = some r ∧ s.lookup r.name = none := by
  simp only [ne_eq, dangling?, missing?, List.findSome?_eq_none_iff, Option.map_eq_none_iff,
    Option.bind_eq_none_iff, not_forall]
  simp

theorem lookup_eq_none_iff {name : Name} :
    s.lookup name = none ↔ ∀ kind, name ∉ s.names kind := by
  rw [lookup_eq_none_iff_get?]
  exact forall_congr' fun _ => get?_eq_none_iff

theorem mem_targets_iff {k : Key} :
    k ∈ s.targets c ↔ ∃ line ∈ c.body, ∃ r, Reference.parse? line = some r ∧
      ∃ b, s.lookup r.name = some b ∧ b.key = k := by
  simp [targets, target?, List.mem_filterMap, Option.bind_eq_some_iff]

theorem mem_keys_of_mem_targets {k : Key} (h : k ∈ s.targets c) :
    k ∈ s.chunks.map (·.key) := by
  obtain ⟨line, -, r, -, b, hb, rfl⟩ := mem_targets_iff.1 h
  exact List.mem_map_of_mem (mem_chunks_of_lookup hb)

/-! ## The linked store -/

/-- The store with every chunk changed. -/
def mapChunks (s : Store) (f : Chunk → Chunk) : Store := ⟨s.fragments.map f, s.files.map f⟩

/-- The chunk with its links in the store. -/
def withLinks (s : Store) (c : Chunk) : Chunk :=
  { c with
    parents := (s.chunks.filter fun p => c.key ∈ s.targets p).map (·.key)
    children := (s.targets c).eraseDups }

/-- The store with all its links. -/
def linked (s : Store) : Store := s.mapChunks s.withLinks

@[simp]
theorem registry_mapChunks (f : Chunk → Chunk) (kind : Kind) :
    (s.mapChunks f).registry kind = (s.registry kind).map f := by cases kind <;> rfl

theorem chunks_mapChunks (f : Chunk → Chunk) : (s.mapChunks f).chunks = s.chunks.map f :=
  List.map_append.symm

theorem chunks_linked (s : Store) : s.linked.chunks = s.chunks.map s.withLinks :=
  chunks_mapChunks _

theorem mapChunks_congr {f g : Chunk → Chunk} (h : ∀ c ∈ s.chunks, f c = g c) :
    s.mapChunks f = s.mapChunks g := by
  obtain ⟨hfragments, hfiles⟩ := List.forall_mem_append.1 h
  rw [mapChunks, mapChunks, List.map_congr_left hfragments, List.map_congr_left hfiles]

theorem mapChunks_mapChunks (f g : Chunk → Chunk) :
    (s.mapChunks f).mapChunks g = s.mapChunks (g ∘ f) := by
  simp [mapChunks]

theorem get?_mapChunks {f : Chunk → Chunk} (hname : ∀ c, (f c).name = c.name) (k : Key) :
    (s.mapChunks f).get? k = (s.get? k).map f := by
  rw [get?, get?, registry_mapChunks, List.find?_map]
  congr 2
  funext c
  simp [hname]

section MapChunks

variable {f : Chunk → Chunk}

theorem lookup_mapChunks (hname : ∀ c, (f c).name = c.name) (name : Name) :
    (s.mapChunks f).lookup name = (s.lookup name).map f := by
  rw [lookup, lookup, get?_mapChunks hname, get?_mapChunks hname, Option.map_or]

/-- Lines refer to the same keys if chunks are changed that keep theirs. -/
theorem target?_mapChunks (hkey : ∀ c, (f c).key = c.key) : (s.mapChunks f).target? = s.target? := by
  funext line
  simp only [target?, lookup_mapChunks fun c => congrArg Key.name (hkey c), Option.map_map]
  simp [Function.comp_def, hkey]

theorem missing?_mapChunks (hname : ∀ c, (f c).name = c.name) :
    (s.mapChunks f).missing? = s.missing? := by
  funext line
  simp [missing?, lookup_mapChunks hname]

theorem dangling?_mapChunks (hname : ∀ c, (f c).name = c.name) (hbody : ∀ c, (f c).body = c.body) :
    (s.mapChunks f).dangling? = s.dangling? := by
  rw [dangling?, missing?_mapChunks hname, chunks_mapChunks, List.findSome?_map]
  simp [dangling?, Function.comp_def, hname, hbody]

end MapChunks

theorem ext_registry {s' : Store} (h : ∀ kind, s.registry kind = s'.registry kind) : s = s' := by
  cases s
  cases s'
  exact congrArg₂ mk (h .fragment) (h .file)

namespace Consistent

/-- In a consistent store, the chunk of a key is changed where that is its key. -/
theorem update_eq (hs : s.Consistent) (k : Key) (f : Chunk → Chunk) :
    s.update k f = s.mapChunks fun c => if c.key = k then f c else c := by
  refine ext_registry fun kind => ?_
  rw [registry_mapChunks]
  by_cases e : kind = k.kind
  · subst e
    rw [Store.update, registry_setRegistry]
    refine List.map_congr_left fun c hc => ?_
    simp [Key.eq_iff, Chunk.key, hs.kind _ c hc]
  · rw [registry_update_of_ne f e]
    refine (List.map_id' _).symm.trans (List.map_congr_left fun c hc => ?_)
    simp [Key.eq_iff, Chunk.key, hs.kind _ c hc, e]

theorem mapChunks (hs : s.Consistent) {f : Chunk → Chunk} (hname : ∀ c, (f c).name = c.name)
    (hkind : ∀ c, (f c).kind = c.kind) : (s.mapChunks f).Consistent := by
  constructor <;> intro kind <;> rw [registry_mapChunks]
  · intro c hc
    obtain ⟨a, ha, rfl⟩ := List.mem_map.1 hc
    rw [hkind, hs.kind kind a ha]
  · rw [List.map_map]
    exact (List.map_congr_left fun c _ => hname c) ▸ hs.nodup kind

theorem linked (hs : s.Consistent) : s.linked.Consistent :=
  hs.mapChunks (fun _ => rfl) fun _ => rfl

/-- No two chunks of a consistent store have the same key. -/
theorem nodup_keys (hs : s.Consistent) : (s.chunks.map (·.key)).Nodup := by
  have hregistry (kind : Kind) : ((s.registry kind).map (·.key)).Nodup := by
    refine List.Nodup.of_map (·.name) ?_
    rw [List.map_map]
    exact hs.nodup kind
  rw [chunks, List.map_append]
  refine (hregistry .fragment).append (hregistry .file) fun k hk hk' => ?_
  obtain ⟨a, ha, rfl⟩ := List.mem_map.1 hk
  obtain ⟨b, hb, e⟩ := List.mem_map.1 hk'
  have hkind : b.kind = a.kind := congrArg Key.kind e
  rw [hs.kind .fragment a ha, hs.kind .file b hb] at hkind
  cases hkind

theorem eq_of_key_eq (hs : s.Consistent) {a b : Chunk} (ha : a ∈ s.chunks) (hb : b ∈ s.chunks)
    (h : a.key = b.key) : a = b :=
  List.inj_on_of_nodup_map hs.nodup_keys ha hb h

end Consistent

end Store

/-! ## Recording links -/

/-- The chunk with a link, where the link begins or ends at the chunk. -/
def Chunk.record (c : Chunk) (link : Key × Key) : Chunk :=
  { c with
    parents := if c.key = link.2 then Key.adjoin c.parents link.1 else c.parents
    children := if c.key = link.1 then Key.adjoin c.children link.2 else c.children }

/-- A chunk only sees the links that begin or end at it. -/
theorem Chunk.foldl_record (c : Chunk) (links : List (Key × Key)) :
    links.foldl record c =
      { c with
        parents := ((links.filter (c.key = ·.2)).map (·.1)).foldl Key.adjoin c.parents
        children := ((links.filter (c.key = ·.1)).map (·.2)).foldl Key.adjoin c.children } := by
  induction links generalizing c with
  | nil => rfl
  | cons link links ih =>
    have hkey : (c.record link).key = c.key := rfl
    rw [List.foldl_cons, ih, hkey]
    congr 1
    · by_cases h : c.key = link.2 <;> simp [record, h]
    · by_cases h : c.key = link.1 <;> simp [record, h]

namespace Store

variable {s : Store} {c : Chunk}

theorem Consistent.addLink_eq (hs : s.Consistent) (link : Key × Key) :
    s.addLink link = s.mapChunks (·.record link) := by
  have hchild := hs.update (k := link.1) (f := (·.addChild link.2))
    (fun c => by rw [Chunk.addChild_eq]) (fun c => by rw [Chunk.addChild_eq]; rfl)
  rw [addLink, hchild.update_eq, hs.update_eq, mapChunks_mapChunks]
  congr 1
  funext c
  have hkey : (c.addChild link.2).key = c.key := by
    rw [Chunk.addChild_eq]
    rfl
  simp only [Function.comp_apply, Chunk.record]
  -- A chunk that refers to itself is changed twice.
  by_cases h₁ : c.key = link.1
  · rw [if_pos h₁, if_pos h₁, hkey, Chunk.addParent_eq, Chunk.addChild_eq]
    split <;> rfl
  · rw [if_neg h₁, if_neg h₁, Chunk.addParent_eq]
    split <;> rfl

/-- Recording links changes every chunk apart from the others. -/
theorem Consistent.foldl_addLink_eq (hs : s.Consistent) (links : List (Key × Key)) :
    links.foldl addLink s = s.mapChunks fun c => links.foldl Chunk.record c := by
  induction links generalizing s with
  | nil => simp [Store.mapChunks]
  | cons link links ih =>
    have hnext : (s.mapChunks (·.record link)).Consistent :=
      hs.mapChunks (fun _ => rfl) fun _ => rfl
    rw [List.foldl_cons, hs.addLink_eq, ih hnext, mapChunks_mapChunks]
    rfl

/-! ## All links of the store -/

/-- Of all links, those that begin at a chunk lead to its children. -/
theorem Consistent.links_from (hs : s.Consistent) (hc : c ∈ s.chunks) :
    (s.allLinks.filter (c.key = ·.1)).map (·.2) = (s.withLinks c).children := by
  have hpart (p : Chunk) :
      (((s.targets p).eraseDups.map (p.key, ·)).filter (c.key = ·.1)).map (·.2) =
        if c.key = p.key then (s.targets p).eraseDups else [] := by
    by_cases h : c.key = p.key <;> simp [List.filter_map, Function.comp_def, h]
  -- No other chunk has that key, so only the chunk itself gives links.
  obtain ⟨before, after, hsplit⟩ := List.append_of_mem hc
  have hnodup := hs.nodup_keys
  rw [hsplit, List.map_append, List.map_cons, List.nodup_middle, List.nodup_cons,
    ← List.map_append] at hnodup
  have hother : ∀ p ∈ before ++ after,
      (if c.key = p.key then (s.targets p).eraseDups else []) = [] := by
    intro p hp
    rw [if_neg fun e => hnodup.1 (List.mem_map.2 ⟨p, hp, e.symm⟩)]
  obtain ⟨hbefore, hafter⟩ := List.forall_mem_append.1 hother
  rw [allLinks, List.filter_flatMap, List.map_flatMap, List.flatMap_congr fun p _ => hpart p,
    hsplit, List.flatMap_append, List.flatMap_cons, List.flatMap_eq_nil_iff.2 hbefore,
    List.flatMap_eq_nil_iff.2 hafter]
  simp [withLinks]

/-- Of all links, those that end at a chunk come from its parents. -/
theorem links_to (s : Store) (c : Chunk) :
    (s.allLinks.filter (c.key = ·.2)).map (·.1) = (s.withLinks c).parents := by
  have hpart (p : Chunk) :
      (((s.targets p).eraseDups.map (p.key, ·)).filter (c.key = ·.2)).map (·.1) =
        if c.key ∈ s.targets p then [p.key] else [] := by
    rw [List.filter_map, List.map_map]
    -- Each target of a chunk is taken once, so at most one of its links ends there.
    have hfilter : (s.targets p).eraseDups.filter (c.key = ·) =
        if c.key ∈ s.targets p then [c.key] else [] := by
      simp only [eq_comm (a := c.key), List.filter_eq]
      split
      · rw [List.count_eq_one_of_mem (nodup_eraseDups _) (List.mem_eraseDups.2 ‹_›)]
        rfl
      · rw [List.count_eq_zero.2 (mt List.mem_eraseDups.1 ‹_›)]
        rfl
    simp only [Function.comp_def, hfilter]
    split <;> rfl
  rw [allLinks, List.filter_flatMap, List.map_flatMap, List.flatMap_congr fun p _ => hpart p,
    withLinks]
  induction s.chunks with
  | nil => rfl
  | cons p l ih => by_cases h : c.key ∈ s.targets p <;> simp [h, ih]

theorem Consistent.nodup_parents (hs : s.Consistent) (c : Chunk) :
    (s.withLinks c).parents.Nodup :=
  hs.nodup_keys.sublist (List.filter_sublist.map _)

/-- What all links make of a chunk with the key of one of the store. -/
theorem Consistent.foldl_record_allLinks (hs : s.Consistent) (hc : c ∈ s.chunks) {a : Chunk}
    (ha : a.key = c.key) :
    s.allLinks.foldl Chunk.record a =
      { a with
        parents := (s.withLinks c).parents.foldl Key.adjoin a.parents
        children := (s.withLinks c).children.foldl Key.adjoin a.children } := by
  rw [Chunk.foldl_record, ha, hs.links_from hc, links_to]

/-- No chunk has links. -/
def Unlinked (s : Store) : Prop := ∀ c ∈ s.chunks, c.parents = [] ∧ c.children = []

/-- All links, recorded in a store without any, give the linked store. -/
theorem Consistent.foldl_allLinks (hs : s.Consistent) (hu : s.Unlinked) :
    s.allLinks.foldl addLink s = s.linked := by
  rw [hs.foldl_addLink_eq]
  refine mapChunks_congr fun c hc => ?_
  -- The keys come to an empty list without repetition, so they are all added.
  obtain ⟨hparents, hchildren⟩ := hu c hc
  have hnodup : ([] ++ (s.withLinks c).parents).Nodup := hs.nodup_parents c
  have hnodup' : ([] ++ (s.withLinks c).children).Nodup := nodup_eraseDups _
  rw [hs.foldl_record_allLinks hc rfl, hparents, hchildren, Key.foldl_adjoin_of_nodup hnodup,
    Key.foldl_adjoin_of_nodup hnodup']
  rfl

/-- All links, recorded in the linked store again, change nothing. -/
theorem Consistent.foldl_allLinks_linked (hs : s.Consistent) :
    s.allLinks.foldl addLink s.linked = s.linked := by
  rw [hs.linked.foldl_addLink_eq, Store.linked, mapChunks_mapChunks]
  refine mapChunks_congr fun c hc => ?_
  rw [Function.comp_apply, hs.foldl_record_allLinks hc (a := s.withLinks c) rfl,
    Key.foldl_adjoin_of_subset (List.Subset.refl _),
    Key.foldl_adjoin_of_subset (List.Subset.refl _)]

/-! ## Linking -/

theorem get?_linked (s : Store) (k : Key) : s.linked.get? k = (s.get? k).map s.withLinks :=
  get?_mapChunks (f := s.withLinks) (fun _ => rfl) k

theorem target?_linked (s : Store) : s.linked.target? = s.target? :=
  target?_mapChunks fun _ => rfl

theorem targets_linked (s : Store) (c : Chunk) :
    s.linked.targets (s.withLinks c) = s.targets c := by
  rw [targets, target?_linked]
  rfl

theorem allLinks_linked (s : Store) : s.linked.allLinks = s.allLinks := by
  rw [allLinks, chunks_linked, List.flatMap_map]
  refine List.flatMap_congr fun p _ => ?_
  rw [targets_linked]
  rfl

theorem dangling?_linked (s : Store) : s.linked.dangling? = s.dangling? :=
  dangling?_mapChunks (fun _ => rfl) fun _ => rfl

/-- Linking fails with the first reference that has no chunk. -/
theorem link_of_dangling?_eq_some {name parent : Name} (h : s.dangling? = some (name, parent)) :
    s.link.outcome = .error (.unresolved name parent) := by
  have hlinks := links_eq s
  rw [h] at hlinks
  rw [link, hlinks]
  rfl

/-- If all references have a chunk, linking records all links. -/
theorem link_of_dangling?_eq_none (h : s.dangling? = none) :
    s.link.outcome = .ok (s.allLinks.foldl addLink s, s.allLinks.length) := by
  have hlinks := links_eq s
  rw [h] at hlinks
  exact link_eq_ok_iff.2 ⟨_, hlinks, rfl, rfl⟩

/-- Linking a store without links gives the linked store. -/
theorem Consistent.link_eq_ok_iff (hs : s.Consistent) (hu : s.Unlinked) {s' : Store} {n : Nat} :
    s.link.outcome = .ok (s', n) ↔
      s.dangling? = none ∧ s' = s.linked ∧ n = s.allLinks.length := by
  cases hd : s.dangling? with
  | some first => simp [link_of_dangling?_eq_some hd]
  | none => simp [link_of_dangling?_eq_none hd, hs.foldl_allLinks hu, eq_comm]

/-- A chunk is a parent of another in the linked store if that one is its child. -/
theorem Consistent.mem_parents_iff (hs : s.Consistent) {p c : Chunk} (hp : p ∈ s.linked.chunks)
    (hc : c ∈ s.linked.chunks) : p.key ∈ c.parents ↔ c.key ∈ p.children := by
  rw [chunks_linked] at hp hc
  obtain ⟨a, ha, rfl⟩ := List.mem_map.1 hp
  obtain ⟨b, -, rfl⟩ := List.mem_map.1 hc
  have hchild : (s.withLinks b).key ∈ (s.withLinks a).children ↔ b.key ∈ s.targets a :=
    List.mem_eraseDups
  rw [hchild]
  constructor
  · intro h
    obtain ⟨q, hq, e⟩ := List.mem_map.1 h
    obtain ⟨hq, ht⟩ := List.mem_filter.1 hq
    rw [hs.eq_of_key_eq ha hq e.symm]
    simpa using ht
  · intro h
    exact List.mem_map.2 ⟨a, List.mem_filter.2 ⟨ha, by simpa using h⟩, rfl⟩

theorem sum_children (s : Store) :
    (s.linked.chunks.map (·.children.length)).sum = s.allLinks.length := by
  rw [allLinks, List.length_flatMap, chunks_linked, List.map_map]
  simp [Function.comp_def, withLinks]

theorem Consistent.sum_parents (hs : s.Consistent) :
    (s.linked.chunks.map (·.parents.length)).sum = s.allLinks.length := by
  have hkeys : ∀ link ∈ s.allLinks, link.2 ∈ s.chunks.map (·.key) := by
    intro link hlink
    obtain ⟨p, -, hlink⟩ := List.mem_flatMap.1 hlink
    obtain ⟨k, hk, rfl⟩ := List.mem_map.1 hlink
    exact mem_keys_of_mem_targets (List.mem_eraseDups.1 hk)
  rw [← sum_length_filter hs.nodup_keys hkeys, chunks_linked, List.map_map,
    List.map_map]
  refine congrArg List.sum (List.map_congr_left fun c _ => ?_)
  rw [Function.comp_apply, ← links_to, List.length_map, Function.comp_apply]
  simp [eq_comm]

/-- The fragments without parents are those that are no target. -/
theorem unreferenced_linked (s : Store) :
    s.linked.unreferenced =
      s.linked.fragments.filter fun c => ∀ p ∈ s.chunks, c.key ∉ s.targets p := by
  refine List.filter_congr fun c hc => ?_
  obtain ⟨c, -, rfl⟩ := List.mem_map.1 hc
  have hkey : (s.withLinks c).key = c.key := rfl
  rw [hkey, Bool.eq_iff_iff, List.isEmpty_iff]
  simp [withLinks, List.filter_eq_nil_iff]

theorem Unlinked.registers {s' : Store} {Q : Occurrence → Prop} (hu : s.Unlinked)
    (h : Registers Q s s') : s'.Unlinked := by
  refine h.forall_chunks (fun _ _ _ _ _ => ⟨rfl, rfl⟩) (fun _ _ _ hc => hc) (fun c text hc => ?_) hu
  rw [Chunk.setShebang]
  split <;> exact hc

/-- Operations other than linking leave a store that is consistent and has no links. -/
theorem consistent_and_unlinked_of_run {ops : List Operation} (h : .link ∉ ops) :
    (run ops {}).Consistent ∧ (run ops {}).Unlinked := by
  have hrun := run_registers h {}
  generalize run ops {} = s at hrun ⊢
  induction hrun with
  | refl => exact ⟨.empty, fun _ h => absurd h List.not_mem_nil⟩
  | tail _ hr ih => exact ⟨ih.1.registers hr, ih.2.registers hr⟩

/-- Let a store be filled by any operations but linking. If a line refers to a name
    without a chunk, linking fails with the first such name, and changes nothing.
    Otherwise it gives the linked store and the number of its links, and so it does
    when it is done again. -/
theorem link_filled_store (ops : List Operation) (hops : .link ∉ ops) :
    let s := run ops {}
    let dangles := ∃ c ∈ s.chunks, ∃ line ∈ c.body, ∃ r, Reference.parse? line = some r ∧
      ∀ kind, r.name ∉ s.names kind
    (dangles → ∃ name parent, s.dangling? = some (name, parent) ∧
      s.link.outcome = .error (.unresolved name parent) ∧ (Operation.link.run s).1 = s) ∧
    (¬dangles → ∃ n, s.link.outcome = .ok (s.linked, n) ∧
      (∀ p ∈ s.linked.chunks, ∀ c ∈ s.linked.chunks, p.key ∈ c.parents ↔ c.key ∈ p.children) ∧
      n = (s.linked.chunks.map (·.children.length)).sum ∧
      n = (s.linked.chunks.map (·.parents.length)).sum ∧
      s.linked.link.outcome = .ok (s.linked, n) ∧
      s.linked.unreferenced =
        s.linked.fragments.filter fun c => ∀ p ∈ s.chunks, c.key ∉ s.targets p) := by
  intro s dangles
  obtain ⟨hs, hu⟩ := consistent_and_unlinked_of_run hops
  have hdangles : s.dangling? ≠ none ↔ dangles := by
    simp only [dangles, dangling?_ne_none_iff, lookup_eq_none_iff]
  rw [← hdangles, not_not]
  constructor
  · intro hd
    obtain ⟨⟨name, parent⟩, hd⟩ := Option.ne_none_iff_exists'.1 hd
    have hlink := link_of_dangling?_eq_some hd
    exact ⟨name, parent, hd, hlink, by rw [Operation.run, hlink]; rfl⟩
  · intro hd
    have hagain := link_of_dangling?_eq_none ((dangling?_linked s).trans hd)
    rw [allLinks_linked, hs.foldl_allLinks_linked] at hagain
    exact ⟨s.allLinks.length, (hs.link_eq_ok_iff hu).2 ⟨hd, rfl, rfl⟩,
      fun p hp c hc => hs.mem_parents_iff hp hc, (sum_children s).symm, hs.sum_parents.symm,
      hagain, unreferenced_linked s⟩

/-- A document in which one chunk refers to another twice. -/
def twice : Text := "@<a@> = c\n @<b@>\n@<b@>\n@\n@<b@> = c\nx\n@\n".toList

theorem link_twice :
    let s := run [.read ⟨['d']⟩ twice] {}
    .link ∉ [Operation.read ⟨['d']⟩ twice] ∧ s.link.outcome = .ok (s.linked, 1) ∧
      s.linked.link.outcome = .ok (s.linked, 1) ∧
      s.linked.unreferenced.map (·.name) = [.ofText ['a']] := by
  intro s
  obtain ⟨herror, hok⟩ := link_filled_store [.read ⟨['d']⟩ twice] (by decide)
  have hlink : s.link.outcome = .ok (s.linked, 1) := by decide
  obtain ⟨n, hn, -, -, -, hagain, -⟩ := hok fun hd => by
    obtain ⟨name, parent, -, he, -⟩ := herror hd
    cases hlink.symm.trans he
  cases hlink.symm.trans hn
  exact ⟨by decide, hlink, hagain, by decide⟩

end Store

end Tangle
