import Tangle.Config.Files
import Tangle.Proofs.Parents

/-!
# The nearest configuration file

A directory *holds* the configuration file `sphweb.toml`, or `.sphweb.toml` if it has no
file with the former name (`Config.Holds`). The search for a configuration file looks into a
directory, ends there if it holds one, and otherwise goes on with the parent, until there is
none (`Config.Search`).

The search ends from every directory, after as many directories as it has ancestors at most,
and its answer is that of `Config.nearestFile?` (`Config.search_iff`): the file that the
first ancestor holds that holds any (`Config.nearestFile?_eq_some_iff`), or nothing if no
ancestor holds one (`Config.nearestFile?_eq_none_iff`).
-/

namespace Tangle.Config

/-- The directory holds the configuration file. -/
inductive Holds (isFile : Path → Bool) (dir : Path) : Path → Prop
  /-- The preferred name is `sphweb.toml`. -/
  | plain (h : isFile (dir.child "sphweb.toml".toList)) :
      Holds isFile dir (dir.child "sphweb.toml".toList)
  /-- Without such a file, `.sphweb.toml` is taken. -/
  | hidden (hplain : isFile (dir.child "sphweb.toml".toList) = false)
      (h : isFile (dir.child ".sphweb.toml".toList)) :
      Holds isFile dir (dir.child ".sphweb.toml".toList)

/-- The directory holds no configuration file, of either name. -/
def HoldsNone (isFile : Path → Bool) (dir : Path) : Prop :=
  isFile (dir.child "sphweb.toml".toList) = false ∧
    isFile (dir.child ".sphweb.toml".toList) = false

instance (isFile : Path → Bool) (dir : Path) : Decidable (HoldsNone isFile dir) :=
  inferInstanceAs (Decidable (_ ∧ _))

/-- The search from a directory ends after that many directories with the answer. -/
inductive Search (isFile : Path → Bool) : Path → ℕ → Option Path → Prop
  /-- A file that the directory holds is the answer. -/
  | found {dir file : Path} (h : Holds isFile dir file) : Search isFile dir 1 (some file)
  /-- Otherwise the search goes on with the parent. -/
  | next {dir up : Path} {n : ℕ} {answer : Option Path} (h : HoldsNone isFile dir)
      (hup : dir.parent? = some up) (rest : Search isFile up n answer) :
      Search isFile dir (n + 1) answer
  /-- Without a parent there is no configuration file. -/
  | ended {dir : Path} (h : HoldsNone isFile dir) (hup : dir.parent? = none) :
      Search isFile dir 1 none

variable {isFile : Path → Bool} {dir file : Path}

/-- What is found among the entries of a directory is what it holds. -/
theorem find?_eq_some_iff :
    (fileNames.map dir.child).find? isFile = some file ↔ Holds isFile dir file := by
  simp only [fileNames, List.map_cons, List.map_nil, List.find?_cons, List.find?_nil]
  constructor
  · intro h
    split at h
    · rename_i hplain
      cases h
      exact .plain hplain
    · rename_i hplain
      split at h
      · rename_i hhidden
        cases h
        exact .hidden hplain hhidden
      · cases h
  · rintro (h | ⟨hplain, h⟩)
    · rw [h]
    · rw [hplain, h]

theorem find?_eq_none_iff :
    (fileNames.map dir.child).find? isFile = none ↔ HoldsNone isFile dir := by
  simp only [fileNames, List.map_cons, List.map_nil, HoldsNone, List.find?_eq_none,
    List.forall_mem_cons, List.not_mem_nil, false_implies, implies_true, and_true,
    Bool.not_eq_true]

/-- The file of a name in a directory is reached in one step from there. -/
theorem components_child {name : Text} (h : name ∈ fileNames) (dir : Path) :
    (dir.child name).components = dir.components ++ [.normal name] := by
  have hname : Path.isAbsolute ⟨name⟩ = false ∧ Path.steps name = [.normal name] ∧
      Path.components ⟨name⟩ = [.normal name] := by
    revert name
    decide
  obtain ⟨habs, hsteps, hcomponents⟩ := hname
  by_cases hdir : dir.text = []
  · rw [Path.child, Path.components_join_of_text_eq_nil hdir habs, hcomponents]
  · rw [Path.child, Path.components_join hdir habs, hsteps]

/-! ## One directory after the other -/

/-- The answer is found in the directory itself, or else from its parent on. -/
theorem nearestFile?_eq (isFile : Path → Bool) (dir : Path) :
    nearestFile? isFile dir =
      ((fileNames.map dir.child).find? isFile).or (dir.parent?.bind (nearestFile? isFile)) := by
  rw [nearestFile?]
  cases hup : dir.parent? with
  | none =>
    rw [Path.ancestors_of_parent?_eq_none hup, List.findSome?_cons]
    cases (fileNames.map dir.child).find? isFile <;> rfl
  | some up =>
    rw [Path.ancestors_of_parent? hup, List.findSome?_cons]
    cases (fileNames.map dir.child).find? isFile <;> rfl

theorem Search.eq_nearestFile? {n : ℕ} {answer : Option Path}
    (h : Search isFile dir n answer) : answer = nearestFile? isFile dir := by
  induction h with
  | found h => rw [nearestFile?_eq, find?_eq_some_iff.2 h, Option.some_or]
  | next h hup _ ih =>
    rw [nearestFile?_eq, find?_eq_none_iff.2 h, Option.none_or, hup, Option.bind_some, ih]
  | ended h hup =>
    rw [nearestFile?_eq, find?_eq_none_iff.2 h, Option.none_or, hup, Option.bind_none]

/-- The search ends, after as many directories as there are ancestors at most. -/
theorem exists_search (isFile : Path → Bool) (dir : Path) :
    ∃ n ≤ dir.ancestors.length, Search isFile dir n (nearestFile? isFile dir) := by
  fun_induction Path.ancestors dir with
  | case1 dir hup =>
    rw [nearestFile?_eq, hup]
    cases hfind : (fileNames.map dir.child).find? isFile with
    | none => exact ⟨1, le_rfl, .ended (find?_eq_none_iff.1 hfind) hup⟩
    | some file => exact ⟨1, le_rfl, .found (find?_eq_some_iff.1 hfind)⟩
  | case2 dir up hup _ ih =>
    obtain ⟨n, hn, hsearch⟩ := ih
    rw [nearestFile?_eq, hup]
    cases hfind : (fileNames.map dir.child).find? isFile with
    | none => exact ⟨n + 1, Nat.succ_le_succ hn, .next (find?_eq_none_iff.1 hfind) hup hsearch⟩
    | some file => exact ⟨1, Nat.succ_le_succ (Nat.zero_le _), .found (find?_eq_some_iff.1 hfind)⟩

theorem search_iff {answer : Option Path} :
    (∃ n ≤ dir.ancestors.length, Search isFile dir n answer) ↔
      answer = nearestFile? isFile dir := by
  constructor
  · rintro ⟨n, -, h⟩
    exact h.eq_nearestFile?
  · rintro rfl
    exact exists_search isFile dir

/-! ## The nearest directory -/

theorem nearestFile?_eq_some_iff :
    nearestFile? isFile dir = some file ↔
      ∃ nearer holder farther, dir.ancestors = nearer ++ holder :: farther ∧
        Holds isFile holder file ∧ ∀ near ∈ nearer, HoldsNone isFile near := by
  simp only [nearestFile?, List.findSome?_eq_some_iff, find?_eq_some_iff, find?_eq_none_iff]

theorem nearestFile?_eq_none_iff :
    nearestFile? isFile dir = none ↔ ∀ above ∈ dir.ancestors, HoldsNone isFile above := by
  simp only [nearestFile?, List.findSome?_eq_none_iff, find?_eq_none_iff]

/-- The ancestors of a path are the one ascent from it, as many as it has components and one
    more if it is not absolute, up to the root directory or the empty path. The search ends
    within that number of directories. Its answer is the file that the first of them holds
    that holds any, and there is no answer exactly if none does. What a directory holds is
    one step further than the directory. -/
theorem nearestFile?_nearest (isFile : Path → Bool) (start : Path) :
    (∀ dirs, start.Ascent dirs ↔ dirs = start.ancestors) ∧
    (∃ below top, start.ancestors = below ++ [top] ∧
      if start.isAbsolute then top.components = [.root] else top.text = []) ∧
    start.ancestors.length = start.components.length + (if start.isAbsolute then 0 else 1) ∧
    (∀ answer, (∃ n ≤ start.ancestors.length, Search isFile start n answer) ↔
      answer = nearestFile? isFile start) ∧
    (∀ file, nearestFile? isFile start = some file ↔
      ∃ nearer dir farther, start.ancestors = nearer ++ dir :: farther ∧
        Holds isFile dir file ∧ ∀ near ∈ nearer, HoldsNone isFile near) ∧
    (nearestFile? isFile start = none ↔ ∀ dir ∈ start.ancestors, HoldsNone isFile dir) ∧
    ∀ name ∈ fileNames, ∀ dir : Path,
      (dir.child name).components = dir.components ++ [.normal name] :=
  ⟨fun _ => Path.ascent_iff, start.exists_last_ancestor, start.length_ancestors,
    fun _ => search_iff, fun _ => nearestFile?_eq_some_iff, nearestFile?_eq_none_iff,
    fun _ => components_child⟩

/-- A path with separators and dots where they may be. -/
def winding : Path := .ofString "a//./b/.."

/-- Files in the directory `a` and in the one above. -/
def windingFiles (p : Path) : Bool :=
  p ∈ [Path.ofString "a/.sphweb.toml", Path.ofString "sphweb.toml"]

theorem nearestFile?_winding :
    nearestFile? windingFiles winding = some (.ofString "a/.sphweb.toml") ∧
      winding.ancestors.length = 4 := by
  obtain ⟨-, -, hlength, -, hsome, -⟩ := nearestFile?_nearest windingFiles winding
  have hancestors : winding.ancestors =
      [winding, .ofString "a//./b"] ++ .ofString "a" :: [.ofString ""] := by
    rw [Path.ancestors_of_parent? (q := .ofString "a//./b") (by decide),
      Path.ancestors_of_parent? (q := .ofString "a") (by decide),
      Path.ancestors_of_parent? (q := .ofString "") (by decide),
      Path.ancestors_of_parent?_eq_none (by decide)]
    rfl
  refine ⟨(hsome _).2 ⟨_, _, _, hancestors, .hidden (by decide) (by decide), by decide⟩, ?_⟩
  rw [hlength]
  decide

end Tangle.Config
