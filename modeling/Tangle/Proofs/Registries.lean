import Tangle.Document
import Tangle.Proofs.Unbroken
import Mathlib.Data.List.Nodup
import Mathlib.Logic.Relation

/-!
# Consistent registries

A store is *consistent* if each of its two registries holds chunks of its own
kind only, and no name twice. Then every chunk is found under its key
(`Consistent.get?_key`), so the keys stand for the chunks in everything that is
said about references.

A store comes to be by *registering* (`Registers`): a new chunk is defined under a
name that is free, or an occurrence or a shebang is added to a chunk. Reading a
document is nothing else, whether it succeeds or stops at an error
(`Document.read_registers`), so what registering keeps is kept by documents. The
empty store is consistent, and registering keeps it so (`Consistent.registers`).
-/

namespace Tangle

open Relation

/-- A new chunk, of one occurrence and without links. -/
def Chunk.new (name : Name) (language : Text) (role : Role) (first : Occurrence) : Chunk where
  name
  language
  role
  occurrences := [first]

theorem Chunk.name_setShebang (c : Chunk) (text : Text) : (c.setShebang text).name = c.name := by
  rw [setShebang]
  split <;> rfl

theorem Chunk.kind_setShebang (c : Chunk) (text : Text) : (c.setShebang text).kind = c.kind := by
  rw [setShebang]
  split
  · rfl
  · rename_i hrole
    simp [kind, Role.kind, hrole]

theorem Key.eq_iff {k l : Key} : k = l ↔ k.kind = l.kind ∧ k.name = l.name := by
  cases k
  cases l
  simp

namespace Store

/-- Every registry holds chunks of its own kind, and no name twice. -/
structure Consistent (s : Store) : Prop where
  /-- The chunks of a registry are of its kind. -/
  kind : ∀ k, ∀ c ∈ s.registry k, c.kind = k
  /-- The names in a registry differ. -/
  nodup : ∀ k, ((s.registry k).map (·.name)).Nodup

variable {s s' : Store} {k : Key} {c : Chunk}

theorem mem_chunks_iff : c ∈ s.chunks ↔ ∃ kind, c ∈ s.registry kind := by
  constructor
  · intro h
    rcases List.mem_append.1 h with h | h
    · exact ⟨.fragment, h⟩
    · exact ⟨.file, h⟩
  · rintro ⟨kind, h⟩
    cases kind
    · exact List.mem_append_left _ h
    · exact List.mem_append_right _ h

/-- Of chunks with different names, each is the one found under its name. -/
theorem find?_name {l : List Chunk} (h : (l.map (·.name)).Nodup) (hc : c ∈ l) :
    l.find? (·.name == c.name) = some c := by
  have hsome : (l.find? (·.name == c.name)).isSome := List.find?_isSome.2 ⟨c, hc, by simp⟩
  obtain ⟨a, ha⟩ := Option.isSome_iff_exists.1 hsome
  have hname : a.name = c.name := by simpa using List.find?_some ha
  rw [ha, List.inj_on_of_nodup_map h (List.mem_of_find?_eq_some ha) hc hname]

namespace Consistent

/-- A chunk is found under its key. -/
theorem get?_key (h : s.Consistent) (hc : c ∈ s.chunks) : s.get? c.key = some c := by
  obtain ⟨kind, hk⟩ := mem_chunks_iff.1 hc
  obtain rfl := h.kind kind c hk
  exact find?_name (h.nodup _) hk

theorem empty : ({} : Store).Consistent where
  kind := by rintro (_ | _) c ⟨⟩
  nodup := by rintro (_ | _) <;> exact List.nodup_nil

end Consistent

/-- The chunk found under a key has that name. -/
theorem name_of_get? (h : s.get? k = some c) : c.name = k.name := by
  simpa using List.find?_some h

theorem get?_eq_none_iff : s.get? k = none ↔ k.name ∉ (s.registry k.kind).map (·.name) := by
  simp [get?, List.find?_eq_none]

theorem lookup_eq_none_iff_get? {name : Name} :
    s.lookup name = none ↔ ∀ kind, s.get? ⟨kind, name⟩ = none := by
  rw [lookup, Option.or_eq_none_iff]
  exact ⟨fun h kind => kind.casesOn h.1 h.2, fun h => ⟨h .fragment, h .file⟩⟩

/-! ## Changing a store -/

@[simp]
theorem registry_setRegistry (s : Store) (k : Kind) (l : List Chunk) :
    (s.setRegistry k l).registry k = l := by cases k <;> rfl

@[simp]
theorem setRegistry_setRegistry (s : Store) (k : Kind) (l l' : List Chunk) :
    (s.setRegistry k l).setRegistry k l' = s.setRegistry k l' := by cases k <;> rfl

theorem registry_setRegistry_of_ne (s : Store) {k k' : Kind} (l : List Chunk) (h : k' ≠ k) :
    (s.setRegistry k l).registry k' = s.registry k' := by
  cases k <;> cases k' <;> trivial

theorem registry_update_of_ne (f : Chunk → Chunk) {kind : Kind} (h : kind ≠ k.kind) :
    (s.update k f).registry kind = s.registry kind :=
  registry_setRegistry_of_ne s _ h

theorem mem_chunks_setRegistry {kind : Kind} {l : List Chunk}
    (h : c ∈ (s.setRegistry kind l).chunks) : c ∈ l ∨ c ∈ s.chunks := by
  obtain ⟨kind', hc⟩ := mem_chunks_iff.1 h
  by_cases e : kind' = kind
  · subst e
    rw [registry_setRegistry] at hc
    exact .inl hc
  · rw [registry_setRegistry_of_ne s l e] at hc
    exact .inr (mem_chunks_iff.2 ⟨kind', hc⟩)

/-- Changing a chunk changes no name if it keeps that of the chunk. -/
theorem map_name_update {f : Chunk → Chunk} (hname : ∀ c, (f c).name = c.name) (kind : Kind) :
    ((s.update k f).registry kind).map (·.name) = (s.registry kind).map (·.name) := by
  by_cases e : kind = k.kind
  · subst e
    rw [update, registry_setRegistry, List.map_map]
    refine List.map_congr_left fun c _ => ?_
    simp only [Function.comp_apply]
    split
    · exact hname c
    · rfl
  · rw [registry_update_of_ne f e]

/-- Changing a chunk changes what is found under its key, and nothing else. -/
theorem get?_update {f : Chunk → Chunk} (hname : ∀ c, (f c).name = c.name) (l : Key) :
    (s.update k f).get? l = if l = k then (s.get? l).map f else s.get? l := by
  by_cases hkind : l.kind = k.kind
  · have hfind : (s.update k f).get? l =
        (s.get? l).map fun c => if c.name = k.name then f c else c := by
      rw [get?, get?, update, hkind, registry_setRegistry, List.find?_map]
      congr 2
      funext c
      simp only [Function.comp_apply]
      split
      · rw [hname]
      · rfl
    rw [hfind]
    cases hc : s.get? l with
    | none => simp
    | some c =>
      simp only [Option.map_some, name_of_get? hc, Key.eq_iff, hkind, true_and]
      split <;> rfl
  · have hk : l ≠ k := fun e => hkind (by rw [e])
    rw [get?, registry_update_of_ne f hkind, if_neg hk]
    rfl

/-- A chunk is defined exactly if there is none under its key. -/
theorem define_eq_ok_iff :
    s.define c = .ok s' ↔
      s.get? c.key = none ∧ s' = s.setRegistry c.kind (s.registry c.kind ++ [c]) := by
  rw [define]
  split
  · simp_all [eq_comm]
  · split <;> simp_all

/-- A chunk is extended exactly if there is one under the key. -/
theorem extend_eq_ok_iff {o : Occurrence} :
    s.extend k o = .ok s' ↔ s.get? k ≠ none ∧ s' = s.update k (·.append o) := by
  rw [extend]
  cases s.get? k <;> simp [eq_comm]

/-- What all chunks have, they have after one of them is changed, if the change keeps
    it. -/
theorem forall_chunks_update {P : Chunk → Prop} {f : Chunk → Chunk} (hf : ∀ c, P c → P (f c))
    (h : ∀ c ∈ s.chunks, P c) : ∀ c ∈ (s.update k f).chunks, P c := by
  intro c hc
  rcases mem_chunks_setRegistry hc with hc | hc
  · obtain ⟨a, ha, rfl⟩ := List.mem_map.1 hc
    have hP := h a (mem_chunks_iff.2 ⟨_, ha⟩)
    split
    · exact hf a hP
    · exact hP
  · exact h c hc

namespace Consistent

/-- A store stays consistent if one of its registries is replaced by chunks of
    the same kind with different names. -/
theorem setRegistry (h : s.Consistent) {k : Kind} {l : List Chunk} (hk : ∀ c ∈ l, c.kind = k)
    (hn : (l.map (·.name)).Nodup) : (s.setRegistry k l).Consistent := by
  constructor <;> intro k'
  · by_cases e : k' = k
    · subst e
      simpa using hk
    · rw [registry_setRegistry_of_ne s l e]
      exact h.kind k'
  · by_cases e : k' = k
    · subst e
      simpa using hn
    · rw [registry_setRegistry_of_ne s l e]
      exact h.nodup k'

/-- A change of a chunk that leaves its name and its kind keeps the store
    consistent. -/
theorem update (h : s.Consistent) {f : Chunk → Chunk} (hname : ∀ c, (f c).name = c.name)
    (hkind : ∀ c, (f c).kind = c.kind) : (s.update k f).Consistent := by
  refine h.setRegistry ?_ ?_
  · intro c hc
    obtain ⟨a, ha, rfl⟩ := List.mem_map.1 hc
    split
    · rw [hkind, h.kind _ a ha]
    · exact h.kind _ a ha
  · rw [← registry_setRegistry s k.kind (List.map _ _)]
    exact (map_name_update hname k.kind).symm ▸ h.nodup k.kind

theorem define (h : s.Consistent) (hd : s.define c = .ok s') : s'.Consistent := by
  obtain ⟨hfree, rfl⟩ := define_eq_ok_iff.1 hd
  refine h.setRegistry ?_ ?_
  · intro a ha
    rcases List.mem_append.1 ha with ha | ha
    · exact h.kind _ a ha
    · rw [List.mem_singleton.1 ha]
  · rw [List.map_append, List.map_singleton, ← List.concat_eq_append]
    exact (h.nodup _).concat (get?_eq_none_iff.1 hfree)

theorem extend (h : s.Consistent) {o : Occurrence} (he : s.extend k o = .ok s') :
    s'.Consistent := by
  obtain ⟨-, rfl⟩ := extend_eq_ok_iff.1 he
  exact h.update (fun _ => rfl) fun _ => rfl

theorem setShebang (h : s.Consistent) (k : Key) (text : Text) :
    (s.setShebang k text).Consistent :=
  h.update (Chunk.name_setShebang · text) (Chunk.kind_setShebang · text)

end Consistent

/-! ## Registering -/

/-- What is registered in a store at once, where the occurrences have a property. -/
inductive Registers (Q : Occurrence → Prop) : Store → Store → Prop
  | define {s s' : Store} {first : Occurrence} (name : Name) (language : Text) (role : Role) :
    Q first → s.define (.new name language role first) = .ok s' → Registers Q s s'
  | extend {s s' : Store} {o : Occurrence} (k : Key) :
    Q o → s.extend k o = .ok s' → Registers Q s s'
  | setShebang (s : Store) (k : Key) (text : Text) : Registers Q s (s.setShebang k text)

variable {P : Chunk → Prop} {Q Q' : Occurrence → Prop}

theorem Registers.mono (hQ : ∀ o, Q o → Q' o) (h : Registers Q s s') : Registers Q' s s' := by
  cases h with
  | define name language role hfirst h => exact .define name language role (hQ _ hfirst) h
  | extend k ho h => exact .extend k (hQ _ ho) h
  | setShebang k text => exact .setShebang s k text

/-- What a new chunk has and what a chunk keeps, all chunks have after registering. -/
theorem Registers.forall_chunks (h : Registers Q s s')
    (hnew : ∀ name language role first, Q first → P (.new name language role first))
    (happend : ∀ c o, Q o → P c → P (c.append o))
    (hshebang : ∀ c text, P c → P (c.setShebang text)) (hs : ∀ c ∈ s.chunks, P c) :
    ∀ c ∈ s'.chunks, P c := by
  cases h with
  | define name language role hfirst h =>
    obtain ⟨-, rfl⟩ := define_eq_ok_iff.1 h
    intro c hc
    rcases mem_chunks_setRegistry hc with hc | hc
    · rcases List.mem_append.1 hc with hc | hc
      · exact hs c (mem_chunks_iff.2 ⟨_, hc⟩)
      · rw [List.mem_singleton.1 hc]
        exact hnew name language role _ hfirst
    · exact hs c hc
  | extend k ho h =>
    obtain ⟨-, rfl⟩ := extend_eq_ok_iff.1 h
    exact forall_chunks_update (fun c => happend c _ ho) hs
  | setShebang k text => exact forall_chunks_update (fun c => hshebang c text) hs

theorem Consistent.registers (h : s.Consistent) (hr : Registers Q s s') : s'.Consistent := by
  cases hr with
  | define name language role _ hd => exact h.define hd
  | extend k _ he => exact h.extend he
  | setShebang k text => exact h.setShebang k text

end Store

/-! ## Reading documents -/

/-- A block is defined, or it extends a chunk, which may then get its shebang. -/
theorem Draft.close_registers {Q : Occurrence → Prop} {d : Draft} {s s' : Store}
    (hQ : Q d.occurrence) (h : (d.close s).outcome = .ok s') :
    ReflTransGen (Store.Registers Q) s s' := by
  rw [Draft.close] at h
  split at h
  · exact .single (.define _ _ _ hQ h)
  · split at h
    · cases h
    · rename_i extended he
      have hextend : Store.Registers Q s extended := .extend d.key hQ he
      cases h
      split
      · exact .single hextend
      · exact .tail (.single hextend) (.setShebang _ _ _)

namespace Document

/-- Reading lines is registering blocks of lines, also if it stops at an error. -/
theorem readLines_registers (document : Path) {lines : List (Nat × Text)} {d : Option Draft}
    {s : Store} (hlines : ∀ line ∈ lines, '\n' ∉ line.2)
    (hd : ∀ b ∈ d, b.occurrence.Unbroken) :
    ReflTransGen (Store.Registers Occurrence.Unbroken) s
      (readLines document lines d s).store := by
  fun_induction readLines document lines d s with
  | case1 | case2 | case5 | case7 => exact .refl
  | case3 number line rest s o hc ih =>
    refine ih (List.forall_mem_cons.1 hlines).2 ?_
    rintro _ ⟨⟩
    exact fun _ h => absurd h List.not_mem_nil
  | case4 number line rest s hc ih => exact ih (List.forall_mem_cons.1 hlines).2 hd
  | case6 number line rest d s hc log s' hclose _ ih =>
    have hregister : (d.close s).outcome = .ok s' := by rw [hclose]
    refine (Draft.close_registers (hd d rfl) hregister).trans ?_
    exact ih (List.forall_mem_cons.1 hlines).2 fun b hb => by cases hb
  | case8 number line rest d s text hc hk ih =>
    refine ih (List.forall_mem_cons.1 hlines).2 ?_
    rintro _ ⟨⟩
    exact hd d rfl
  | case9 number line rest d s o hc ih | case10 number line rest d s hc ih =>
    obtain ⟨hline, hrest⟩ := List.forall_mem_cons.1 hlines
    refine ih hrest ?_
    rintro _ ⟨⟩
    exact List.forall_mem_append.2 ⟨hd d rfl, List.forall_mem_singleton.2 hline⟩

/-- Reading a document is registering blocks of its lines. -/
theorem read_registers (document : Path) (text : Text) (s : Store) :
    ReflTransGen (Store.Registers Occurrence.Unbroken) s (read document text s).store := by
  exact readLines_registers document (fun _ => Text.newline_notMem_of_mem_numbered)
    fun b hb => by cases hb

end Document

theorem Store.Consistent.read {s : Store} (h : s.Consistent) (document : Path) (text : Text) :
    (Document.read document text s).store.Consistent := by
  have hread := Document.read_registers document text s
  generalize (Document.read document text s).store = s' at hread ⊢
  induction hread with
  | refl => exact h
  | tail _ hr ih => exact ih.registers hr

end Tangle
