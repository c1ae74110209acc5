import Tangle.Proofs.Performing

/-!
# Targets inside the output directory

A name is a target if it is no absolute path and has no component `..`, which can be seen from
its text: it does not start with a separator, and none of the pieces between separators is `..`
(`Path.root_mem_components_iff`, `Path.parent_mem_components_iff`). A name such as `...` or `..x`
is like any other.

The path of a target starts with the components of the output directory, and goes down from
there. So it leads to a place in the output directory on any disk
(`Workspace.place_outputDir_prefix`), also if the output directory is the empty path, which is
the working directory.
-/

namespace Tangle

namespace Path

/-- The root directory is a component of the absolute paths. -/
theorem root_mem_components_iff (p : Path) : .root ∈ p.components ↔ p.isAbsolute := by
  rw [components_eq, List.mem_append, or_iff_left (root_notMem_steps p.text), lead_eq, isAbsolute,
    beq_iff_eq]
  split
  · simp [*]
  · split <;> simp [*]

/-- The directory above is a component of the paths with a piece `..`. -/
theorem parent_mem_components_iff (p : Path) :
    .parent ∈ p.components ↔ ['.', '.'] ∈ Text.split '/' p.text := by
  have hlead : .parent ∉ p.lead.toList := by
    rw [lead_eq]
    split
    · simp
    · split <;> simp
  have hpiece (piece : Text) : Component.ofPiece piece = .parent ↔ piece = ['.', '.'] := by
    rw [Component.ofPiece]
    split <;> simp [*]
  rw [components_eq, List.mem_append, or_iff_right hlead, steps, List.mem_map]
  constructor
  · rintro ⟨piece, hmem, hparent⟩
    rw [← (hpiece piece).1 hparent]
    exact (List.mem_filter.1 hmem).1
  · intro hmem
    exact ⟨['.', '.'], List.mem_filter.2 ⟨hmem, rfl⟩, rfl⟩

end Path

namespace Workspace

variable {w : Workspace} {name : Name} {p : Path}

/-- Components stay inside if none is the root directory or the directory above. -/
theorem all_staysInside_iff {components : List Path.Component} :
    components.all staysInside ↔ .root ∉ components ∧ .parent ∉ components := by
  have hstays (c : Path.Component) : staysInside c ↔ c ≠ .root ∧ c ≠ .parent := by
    cases c <;> simp [staysInside]
  simp only [List.all_eq_true, hstays]
  exact ⟨fun h => ⟨fun hr => (h _ hr).1 rfl, fun hp => (h _ hp).2 rfl⟩,
    fun h c hc => ⟨fun e => h.1 (e ▸ hc), fun e => h.2 (e ▸ hc)⟩⟩

/-- The names with a target. -/
theorem exists_target_iff :
    (∃ p, w.target name = .ok p) ↔
      name.text ≠ [] ∧ Path.isAbsolute ⟨name.text⟩ = false ∧
        .parent ∉ Path.components ⟨name.text⟩ := by
  simp only [target_eq_ok_iff, exists_and_left, exists_eq, and_true, all_staysInside_iff,
    Path.root_mem_components_iff, Bool.not_eq_true]

/-- What a target has inside is neither the root directory nor the directory above. -/
theorem notMem_inside (h : w.target name = .ok p) :
    .root ∉ w.inside name ∧ .parent ∉ w.inside name := by
  have hcomponents := all_staysInside_iff.1 (target_eq_ok_iff.1 h).1.2
  rw [inside]
  split
  · exact hcomponents
  · exact ⟨fun hr => hcomponents.1 (List.mem_filter.1 hr).1,
      fun hp => hcomponents.2 (List.mem_filter.1 hp).1⟩

/-- A target leads to a place in the output directory. -/
theorem place_outputDir_prefix (h : w.target name = .ok p) (d : Disk) :
    d.place w.outputDir <+: d.place p := by
  rw [place_target h]
  exact List.prefix_append _ _

/-- A name has a target exactly if it is not empty, not absolute, and has no component `..`.
    The target is the name taken from the output directory: its components are those of the
    output directory and others that go down from there, and it leads to a place in the output
    directory on any disk. Every other name is an error. -/
theorem target_confined (w : Workspace) (name : Name) :
    ((∃ p, w.target name = .ok p) ↔
      name.text ≠ [] ∧ Path.isAbsolute ⟨name.text⟩ = false ∧
        .parent ∉ Path.components ⟨name.text⟩) ∧
    (Path.Component.parent ∈ Path.components ⟨name.text⟩ ↔
      ['.', '.'] ∈ Text.split '/' name.text) ∧
    (∀ p, w.target name = .ok p →
      p = w.outputDir.join ⟨name.text⟩ ∧
        (∃ rest, p.components = w.outputDir.components ++ rest ∧ .root ∉ rest ∧ .parent ∉ rest) ∧
        ∀ d : Disk, d.place w.outputDir <+: d.place p) ∧
    ((¬∃ p, w.target name = .ok p) → w.target name = .error (.badTarget name)) := by
  refine ⟨exists_target_iff, Path.parent_mem_components_iff _, fun p h => ?_, fun hnone => ?_⟩
  · exact ⟨(target_eq_ok_iff.1 h).2, ⟨w.inside name, components_target h, notMem_inside h⟩,
      place_outputDir_prefix h⟩
  · cases h : w.target name with
    | ok p => exact absurd ⟨p, h⟩ hnone
    | error e => rw [eq_badTarget h]

/-- A name with dots and separators wherever they may be. -/
def dotted : Name := .ofText "..x//./.../".toList

/-- A workspace with an absolute output directory. -/
def dottedWorkspace : Workspace := .new {} (Shelf.library ⟨[]⟩) (.ofString "/o")

theorem dotted_confined :
    dottedWorkspace.target dotted = .ok (.ofString "/o/..x//./.../") ∧
      ∀ d : Disk, d.place dottedWorkspace.outputDir <+: d.place (.ofString "/o/..x//./.../") := by
  have htarget : dottedWorkspace.target dotted = .ok (.ofString "/o/..x//./.../") := by decide
  obtain ⟨-, -, hconfined, -⟩ := target_confined dottedWorkspace dotted
  exact ⟨htarget, (hconfined _ htarget).2.2⟩

end Workspace

end Tangle
