import Tangle.Workspace
import Mathlib.Data.List.Basic

/-!
# Components of a joined path

The components of a path are its lead and the *steps* of its text, i.e., what the
pieces between separators stand for, without those that do not count
(`Path.components_eq`). Steps are found piece by piece (`Path.steps_append`), so the
components of `b` taken from the directory `a` are those of `a` and then the steps of
`b` (`Path.components_join`): a `.` in front of `b` is lost, unless `a` is empty.
-/

namespace Tangle.Path

/-- The components that the pieces of a text stand for. -/
def steps (t : Text) : List Component :=
  ((Text.split '/' t).filter fun piece => !ignorable piece).map .ofPiece

theorem steps_append (s t : Text) : steps (s ++ '/' :: t) = steps s ++ steps t := by
  rw [steps, Text.split_append, List.filter_append, List.map_append]
  rfl

/-- A separator in front is no step. -/
theorem steps_cons (t : Text) : steps ('/' :: t) = steps t := steps_append [] t

/-- No step is the directory itself. -/
theorem current_notMem_steps (t : Text) : .current ∉ steps t := by
  intro h
  obtain ⟨piece, -, hp⟩ := List.mem_map.1 h
  rw [Component.ofPiece] at hp
  split at hp <;> cases hp

/-- No step is the root directory. -/
theorem root_notMem_steps (t : Text) : .root ∉ steps t := by
  intro h
  obtain ⟨piece, -, hp⟩ := List.mem_map.1 h
  rw [Component.ofPiece] at hp
  split at hp <;> cases hp

/-- The components of a path are its lead and its steps. -/
theorem components_eq (p : Path) : p.components = p.lead.toList ++ steps p.text := by
  have hsteps : steps (p.text.drop p.lead.toList.length) = steps p.text := by
    rw [lead]
    split
    · rename_i rest h
      rw [h]
      exact (steps_cons rest).symm
    · rename_i h
      rw [h]
      rfl
    · rename_i rest h
      rw [h]
      exact (steps_cons rest).trans (steps_append ['.'] rest).symm
    · rfl
  rw [components, ← hsteps]
  rfl

/-- The steps of a path that is not absolute are its components but for a `.` in
    front. -/
theorem filter_components {p : Path} (h : p.isAbsolute = false) :
    p.components.filter (· ≠ .current) = steps p.text := by
  have hsteps : (steps p.text).filter (· ≠ .current) = steps p.text := by
    refine List.filter_eq_self.2 fun c hc => decide_eq_true ?_
    rintro rfl
    exact current_notMem_steps p.text hc
  have hlead : p.lead.toList.filter (· ≠ .current) = [] := by
    rw [lead]
    split
    · rename_i ht
      simp [isAbsolute, ht] at h
    · rfl
    · rfl
    · rfl
  rw [components_eq, List.filter_append, hsteps, hlead, List.nil_append]

/-- What is joined to the empty path stays as it is. -/
theorem join_of_text_eq_nil {a b : Path} (ha : a.text = []) (hb : b.isAbsolute = false) :
    a.join b = b := by
  rw [join, hb, if_neg Bool.false_ne_true, if_pos (.inl ha), ha, List.nil_append]

/-- What is joined to a path that is not empty stands after a separator. -/
theorem text_join {a b : Path} (ha : a.text ≠ []) (hb : b.isAbsolute = false) :
    ∃ front, (a.join b).text = front ++ '/' :: b.text ∧
      (a.text = front ∨ a.text = front ++ ['/']) := by
  rw [join, hb, if_neg Bool.false_ne_true]
  split
  · rename_i h
    obtain ⟨front, hfront⟩ := List.getLast?_eq_some_iff.1 (h.resolve_left ha)
    exact ⟨front, by simp [hfront], .inr hfront⟩
  · exact ⟨a.text, rfl, .inl rfl⟩

/-- The lead is told by the first two characters, where a separator may be thought of
    after the last one. -/
theorem lead_eq (p : Path) :
    p.lead = if p.text.head? = some '/' then some .root
      else if p.text.head? = some '.' ∧ (p.text.drop 1).headD '/' = '/' then some .current
      else none := by
  rw [lead]
  generalize p.text = t
  rcases t with _ | ⟨c, _ | ⟨e, r⟩⟩
  · rfl
  · by_cases h : c = '/' <;> by_cases h' : c = '.' <;> simp_all
  · by_cases h : c = '/' <;> by_cases h' : c = '.' <;> by_cases he : e = '/' <;> simp_all

/-- What is joined to a path that is not empty does not change its lead. -/
theorem lead_join {a b : Path} (ha : a.text ≠ []) (hb : b.isAbsolute = false) :
    (a.join b).lead = a.lead := by
  obtain ⟨front, ht, hfront⟩ := text_join ha hb
  rw [lead_eq, lead_eq, ht]
  rcases hfront with h | h <;> rw [h]
  · obtain ⟨c, r, rfl⟩ := List.exists_cons_of_ne_nil (h ▸ ha)
    cases r <;> rfl
  · cases front with
    | nil => rfl
    | cons c r => cases r <;> rfl

/-- A path joined to the empty path keeps its components, also a `.` in front. -/
theorem components_join_of_text_eq_nil {a b : Path} (ha : a.text = []) (hb : b.isAbsolute = false) :
    (a.join b).components = a.components ++ b.components := by
  have hempty : a.components = [] := by
    rw [components_eq, lead, ha]
    rfl
  rw [join_of_text_eq_nil ha hb, hempty, List.nil_append]

/-- A path joined to one that is not empty adds its steps to the components. -/
theorem components_join {a b : Path} (ha : a.text ≠ []) (hb : b.isAbsolute = false) :
    (a.join b).components = a.components ++ steps b.text := by
  obtain ⟨front, ht, hfront⟩ := text_join ha hb
  have hsteps : steps a.text = steps front := by
    rcases hfront with h | h
    · rw [h]
    · rw [h, steps_append]
      exact List.append_nil _
  rw [components_eq, components_eq a, lead_join ha hb, ht, steps_append, hsteps, List.append_assoc]

end Tangle.Path
