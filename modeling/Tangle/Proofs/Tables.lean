import Tangle.Toml.Statement
import Mathlib.Data.List.Nodup

/-!
# Tables made of sections

The statements of pairs and sections are split into just these (`Toml.split_statements`),
so a document is told by the pairs before its first header and by its sections. What they
make is followed key by key:

* pairs with different keys make the table of these keys (`Toml.putAll_pairs`);
* a section with a new key adds a table (`Toml.addSections_table`);
* a section of a list adds an element to the list, which is there or not
  (`Toml.addSections_element`), and a section below the list adds a table to its last
  element (`Toml.addSections_below`).
-/

namespace Tangle.Toml

/-- The keys of a table. -/
def keysOf (entries : Entries) : List Text := entries.map Prod.fst

/-- Entries as pairs. -/
def pairsOf (entries : Entries) : List (List Text × Value) := entries.map fun e => ([e.1], e.2)

/-- The statement of a pair. -/
def Statement.ofPair (p : List Text × Value) : Statement := .pair p.1 p.2

/-- The statements of a section. -/
def Section.statements (s : Section) : List Statement :=
  (if s.isElement then .element s.path else .header s.path) :: s.pairs.map .ofPair

/-- The statements of pairs and sections are split into these. -/
theorem split_statements (pairs : List (List Text × Value)) (sections : List Section) :
    split (pairs.map .ofPair ++ sections.flatMap Section.statements) = (pairs, sections) := by
  -- Pairs belong to what is before the next header.
  have hpairs (ps : List (List Text × Value)) (ss : List Statement) (sections : List Section)
      (h : split ss = ([], sections)) : split (ps.map .ofPair ++ ss) = (ps, sections) := by
    induction ps with
    | nil => exact h
    | cons p ps ih => rw [List.map_cons, List.cons_append, Statement.ofPair, split, ih]
  have hsections : split (sections.flatMap Section.statements) = ([], sections) := by
    induction sections with
    | nil => rfl
    | cons s sections ih =>
      obtain ⟨path, isElement, ps⟩ := s
      rw [List.flatMap_cons, Section.statements, List.cons_append]
      cases isElement
      · rw [if_neg Bool.false_ne_true, split, hpairs ps _ _ ih]
      · rw [if_pos rfl, split, hpairs ps _ _ ih]
  exact hpairs pairs _ _ hsections

variable {key : Text} {v : Value} {front entries : Entries}

theorem find?_eq_none (h : key ∉ keysOf entries) : find? key entries = none := by
  refine List.lookup_eq_none_iff.2 fun e he => bne_iff_ne.2 ?_
  rintro rfl
  exact h (List.mem_map_of_mem he)

theorem find?_last (h : key ∉ keysOf front) : find? key (front ++ [(key, v)]) = some v := by
  rw [find?, List.lookup_append, ← find?, find?_eq_none h]
  simp

/-- If keys are not repeated, each has its value. -/
theorem find?_of_mem (h : (keysOf entries).Nodup) (hv : (key, v) ∈ entries) :
    find? key entries = some v := by
  induction entries with
  | nil => cases hv
  | cons e entries ih =>
    obtain ⟨hfirst, hrest⟩ := List.nodup_cons.1 h
    rcases List.mem_cons.1 hv with rfl | hv
    · exact List.lookup_cons_self
    · have hne : (key == e.1) = false := by
        refine beq_eq_false_iff_ne.2 ?_
        rintro rfl
        exact hfirst (List.mem_map.2 ⟨_, hv, rfl⟩)
      rw [find?, List.lookup_cons, hne]
      exact ih hrest hv

/-- The last entry is replaced. -/
theorem replace_last {old : Value} (h : key ∉ keysOf front) :
    replace key v (front ++ [(key, old)]) = front ++ [(key, v)] := by
  have hfront : replace key v front = front := by
    refine (List.map_congr_left fun e he => ?_).trans (List.map_id front)
    refine if_neg ?_
    rintro rfl
    exact h (List.mem_map_of_mem he)
  rw [replace] at hfront ⊢
  rw [List.map_append, hfront]
  simp

/-- Pairs with different keys make the table of these keys. -/
theorem putAll_pairs (h : (keysOf (front ++ entries)).Nodup) :
    putAll (pairsOf entries) front = some (front ++ entries) := by
  induction entries generalizing front with
  | nil => exact congrArg some (List.append_nil front).symm
  | cons e entries ih =>
    obtain ⟨k, v⟩ := e
    have hk : k ∉ keysOf front := by
      rw [keysOf, List.map_append] at h
      exact fun hmem => List.disjoint_of_nodup_append h hmem List.mem_cons_self
    have hput : put k v [] front = some (front ++ [(k, v)]) := by
      rw [put, find?_eq_none hk]
      rfl
    have hrest : putAll (pairsOf entries) (front ++ [(k, v)]) =
        some (front ++ (k, v) :: entries) := by
      rw [ih (by simpa using h)]
      simp
    exact (congrArg (·.bind (putAll (pairsOf entries))) hput).trans hrest

/-- A section with a new key adds a table. -/
theorem addSections_table (hkey : key ∉ keysOf front) (hentries : (keysOf entries).Nodup)
    (more : List Section) :
    addSections (⟨[key], false, pairsOf entries⟩ :: more) front =
      addSections more (front ++ [(key, .table .header entries)]) := by
  have hopen : openTable key ⟨[key], false, pairsOf entries⟩ front =
      some (front ++ [(key, .table .header entries)]) := by
    rw [openTable, find?_eq_none hkey, putAll_pairs (by exact hentries)]
    rfl
  exact congrArg (·.bind (addSections more)) hopen

/-- The entries with a list of tables under a key, if it has elements. -/
def listed (key : Text) (elements : List Entries) (front : Entries) : Entries :=
  if elements = [] then front else front ++ [(key, .tables elements)]

theorem listed_append (elements : List Entries) (last front : Entries) :
    listed key (elements ++ [last]) front = front ++ [(key, .tables (elements ++ [last]))] :=
  if_neg (List.concat_ne_nil _ _)

/-- A section of a list adds an element. -/
theorem addSections_element (hkey : key ∉ keysOf front) (hentries : (keysOf entries).Nodup)
    (elements : List Entries) (more : List Section) :
    addSections (⟨[key], true, pairsOf entries⟩ :: more) (listed key elements front) =
      addSections more (listed key (elements ++ [entries]) front) := by
  have hopen : openTable key ⟨[key], true, pairsOf entries⟩ (listed key elements front) =
      some (listed key (elements ++ [entries]) front) := by
    rw [listed_append, listed]
    split_ifs with hnil
    · rw [openTable, find?_eq_none hkey, putAll_pairs (by exact hentries), hnil]
      rfl
    · rw [openTable, find?_last hkey, putAll_pairs (by exact hentries)]
      simp [replace_last hkey]
  exact congrArg (·.bind (addSections more)) hopen

/-- A section below a list adds a table to the last element. -/
theorem addSections_below {inner : Text} {last : Entries} (hkey : key ∉ keysOf front)
    (hinner : inner ∉ keysOf last) (hentries : (keysOf entries).Nodup)
    (elements : List Entries) (more : List Section) :
    addSections (⟨[key, inner], false, pairsOf entries⟩ :: more)
        (listed key (elements ++ [last]) front) =
      addSections more
        (listed key (elements ++ [last ++ [(inner, .table .header entries)]]) front) := by
  have hopen : openTable inner ⟨[key, inner], false, pairsOf entries⟩ last =
      some (last ++ [(inner, .table .header entries)]) := by
    rw [openTable, find?_eq_none hinner, putAll_pairs (by exact hentries)]
    rfl
  have hwithin : within (openTable inner ⟨[key, inner], false, pairsOf entries⟩) [key]
      (listed key (elements ++ [last]) front) =
        some (listed key (elements ++ [last ++ [(inner, .table .header entries)]]) front) := by
    rw [listed_append, listed_append, within, find?_last hkey]
    simp [within, hopen, replace_last hkey]
  exact congrArg (·.bind (addSections more)) hwithin

end Tangle.Toml
