import Tangle.Chunk.Basic
import Tangle.Error

/-!
# The store of chunks

All chunks read so far, in two registries, one for the fragments and one for the
files. A registry lists its chunks in the order in which they were defined, and
no name twice: a chunk is added by `define`, which refuses a name that is taken,
and changed by `extend`, which refuses one that is not.

A reference gives a name only. It is resolved by `lookup`: a fragment of that
name, or else a file.
-/

namespace Tangle

/-- The chunks read so far. -/
structure Store where
  /-- The fragments, in the order of their definition. -/
  fragments : List Chunk := []
  /-- The files, in the order of their definition. -/
  files : List Chunk := []
deriving DecidableEq, Inhabited

namespace Store

/-- The chunks of a kind. -/
def registry (s : Store) : Kind → List Chunk
  | .fragment => s.fragments
  | .file => s.files

/-- The store with other chunks of a kind. -/
def setRegistry (s : Store) (kind : Kind) (chunks : List Chunk) : Store :=
  match kind with
  | .fragment => { s with fragments := chunks }
  | .file => { s with files := chunks }

/-- All chunks: the fragments, then the files. -/
def chunks (s : Store) : List Chunk := s.fragments ++ s.files

/-- The keys under which the chunks are registered. -/
def keys (s : Store) : List Key :=
  s.fragments.map (⟨.fragment, ·.name⟩) ++ s.files.map (⟨.file, ·.name⟩)

/-- The number of chunks. -/
def size (s : Store) : Nat := s.fragments.length + s.files.length

/-- The chunk of a kind and name. -/
def get? (s : Store) (k : Key) : Option Chunk := (s.registry k.kind).find? (·.name == k.name)

/-- The chunk that a reference to the name stands for: a fragment, or else a
    file. -/
def lookup (s : Store) (name : Name) : Option Chunk :=
  (s.get? ⟨.fragment, name⟩).or (s.get? ⟨.file, name⟩)

/-- The store with the chunk of that key changed. -/
def update (s : Store) (k : Key) (f : Chunk → Chunk) : Store :=
  s.setRegistry k.kind ((s.registry k.kind).map fun c => if c.name = k.name then f c else c)

/-- The store with one more chunk, whose name must be free among those of its
    kind. -/
def define (s : Store) (c : Chunk) : Except Error Store :=
  match s.get? c.key with
  | none => .ok (s.setRegistry c.kind (s.registry c.kind ++ [c]))
  | some _ =>
    match c.occurrences with
    | [] => .error (.noOccurrence c.name)
    | o :: _ => .error (.alreadyDefined c.kind c.name o.location)

/-- The store with one more occurrence of the chunk of that key, which must be
    there. -/
def extend (s : Store) (k : Key) (o : Occurrence) : Except Error Store :=
  match s.get? k with
  | some _ => .ok (s.update k (·.append o))
  | none => .error (.notDefined k.kind k.name o.location)

/-- The store with another shebang of the file chunk of that key. -/
def setShebang (s : Store) (k : Key) (text : Text) : Store := s.update k (·.setShebang text)

/-- Fewer elements have a property if one loses it and none gains it. -/
theorem countP_lt {α : Type} {p q : α → Bool} {l : List α} {a : α} (ha : a ∈ l)
    (hpq : ∀ x, q x → p x) (hp : p a) (hq : q a = false) : l.countP q < l.countP p := by
  induction l with
  | nil => simp at ha
  | cons d l ih =>
    have hle : l.countP q ≤ l.countP p := List.countP_mono_left fun x _ => hpq x
    simp only [List.countP_cons]
    rcases List.mem_cons.1 ha with rfl | hl
    · simp only [hp, hq, if_true, Bool.false_eq_true, if_false]
      omega
    · have hlt := ih hl
      have hd := hpq d
      by_cases hqd : q d
      · simp only [hqd, hd hqd, if_true]
        omega
      · simp only [hqd, Bool.false_eq_true, if_false]
        omega

theorem mem_chunks_of_get? {s : Store} {k : Key} {c : Chunk} (h : s.get? k = some c) :
    c ∈ s.chunks := by
  have hm := List.mem_of_find?_eq_some h
  unfold registry at hm
  unfold chunks
  split at hm <;> simp [hm]

theorem mem_chunks_of_lookup {s : Store} {name : Name} {c : Chunk}
    (h : s.lookup name = some c) : c ∈ s.chunks := by
  rcases Option.or_eq_some_iff.1 h with h | ⟨_, h⟩ <;> exact mem_chunks_of_get? h

theorem mem_keys_of_get? {s : Store} {k : Key} {c : Chunk} (h : s.get? k = some c) :
    k ∈ s.keys := by
  have hm := List.mem_of_find?_eq_some h
  have hn := List.find?_some h
  obtain ⟨kind, name⟩ := k
  simp only [beq_iff_eq] at hn
  cases kind
  · exact List.mem_append_left _ (List.mem_map.2 ⟨c, hm, by rw [hn]⟩)
  · exact List.mem_append_right _ (List.mem_map.2 ⟨c, hm, by rw [hn]⟩)

end Store

end Tangle
