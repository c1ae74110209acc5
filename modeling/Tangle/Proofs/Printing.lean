import Tangle.Proofs.Forms
import Tangle.Proofs.Nesting

/-!
# Printed trees

The text of a tree of chunks has a line for each chunk, with its depth as indentation. Such a
line is a *row*: how deep the chunk stands, its key, and its mark (`Forest.Row`). The text tells
the tree, in three steps:

* if the names have no line feeds, the lines of the text tell the rows one by one
  (`Forest.render_eq`), and there are as many as chunks (`Forest.length_rows`);
* a line tells its row (`Forest.Row.text_injective`): the blanks in front end at an `@`, and what
  is behind a name ends in an `@` and a bracket, or else in the mark, whatever the name is;
* the rows tell the trees (`Forest.rows_append_inj`): a row belongs below the one before it as
  long as it stands deeper.
-/

namespace Tangle

/-- Keys are written differently. -/
theorem Key.text_injective {k l : Key} (h : k.text = l.text) : k = l := by
  obtain ⟨kind, name⟩ := k
  obtain ⟨kind', name'⟩ := l
  simp only [text, List.cons.injEq, true_and] at h
  obtain ⟨hopening, hname⟩ := h
  obtain rfl : kind = kind' := by cases kind <;> cases kind' <;> first | rfl | cases hopening
  rw [Name.ext_text (List.append_cancel_right hname)]

namespace Forest

/-- The keys of the chunks in the trees. -/
def keys : Forest → List Key
  | nil => []
  | cons root _ below rest => root :: (below.keys ++ rest.keys)

/-- A line of the text of trees. -/
structure Row where
  /-- How deep the chunk stands. -/
  depth : Nat
  /-- The chunk. -/
  root : Key
  /-- The chunk stands below itself. -/
  recursive : Bool
deriving DecidableEq, Inhabited

/-- The words behind a chunk. -/
def markText (recursive : Bool) : Text := if recursive then " (recursive)".toList else []

/-- The row as text. -/
def Row.text (r : Row) : Text :=
  List.replicate (2 * r.depth) ' ' ++ (r.root.text ++ markText r.recursive)

/-- The rows of the trees, the roots of which stand at a depth. -/
def rows (depth : Nat) : Forest → List Row
  | nil => []
  | cons root recursive below rest =>
    ⟨depth, root, recursive⟩ :: (below.rows (depth + 1) ++ rest.rows depth)

variable {f g : Forest} {depth : Nat}

/-- The text of trees are their rows. -/
theorem render_eq (f : Forest) (depth : Nat) :
    f.render depth = Text.unlines ((f.rows depth).map Row.text) := by
  induction f generalizing depth with
  | nil => rfl
  | cons root recursive below rest ihBelow ihRest =>
    rw [render, rows, List.map_cons, List.map_append, Text.unlines, Text.unlines_append,
      ← ihBelow, ← ihRest]
    simp only [Row.text, markText, List.append_assoc, List.cons_append]

theorem length_rows (f : Forest) (depth : Nat) : (f.rows depth).length = f.size := by
  induction f generalizing depth with
  | nil => rfl
  | cons root recursive below rest ihBelow ihRest =>
    rw [rows, List.length_cons, List.length_append, ihBelow, ihRest, size]
    omega

theorem map_root_rows (f : Forest) (depth : Nat) : (f.rows depth).map (·.root) = f.keys := by
  induction f generalizing depth with
  | nil => rfl
  | cons root recursive below rest ihBelow ihRest =>
    rw [rows, List.map_cons, List.map_append, ihBelow, ihRest, keys]

/-! ## A line tells its row -/

/-- A bracket behind an `@` is not the end of a mark. -/
theorem text_ne_text_marked (k l : Key) : k.text ≠ l.text ++ markText true := by
  intro h
  have hmark : markText true = " (recursiv".toList ++ ['e', ')'] := rfl
  rw [hmark, ← List.append_assoc, Key.text, ← List.cons_append, ← List.cons_append] at h
  obtain ⟨-, hend⟩ := List.append_inj' h rfl
  cases hend

theorem marked_injective {k l : Key} {recursive recursive' : Bool}
    (h : k.text ++ markText recursive = l.text ++ markText recursive') :
    k = l ∧ recursive = recursive' := by
  cases recursive <;> cases recursive'
  · exact ⟨Key.text_injective (List.append_cancel_right h), rfl⟩
  · exact absurd ((List.append_nil _).symm.trans h) (text_ne_text_marked k l)
  · exact absurd ((List.append_nil _).symm.trans h.symm) (text_ne_text_marked l k)
  · exact ⟨Key.text_injective (List.append_cancel_right h), rfl⟩

/-- Different rows are different lines. -/
theorem Row.text_injective {r r' : Row} (h : r.text = r'.text) : r = r' := by
  obtain ⟨depth, root, recursive⟩ := r
  obtain ⟨depth', root', recursive'⟩ := r'
  -- No key starts with a blank, so the indentation ends where the key begins.
  have hblank (n : Nat) : (List.replicate n ' ').all (· == ' ') = true := by simp
  have hkey (k : Key) (t : Text) : ∀ c ∈ (k.text ++ t).head?, (c == ' ') = false := by
    simp [Key.text]
  obtain ⟨hdepth, hmarked⟩ :=
    Text.append_inj_of_all (hblank _) (hblank _) (hkey _ _) (hkey _ _) h
  obtain ⟨rfl, rfl⟩ := marked_injective hmarked
  have hlength := congrArg List.length hdepth
  simp only [List.length_replicate] at hlength
  obtain rfl : depth = depth' := by omega
  rfl

theorem newline_notMem_text {k : Key} (h : '\n' ∉ k.name.text) (depth : Nat) (recursive : Bool) :
    '\n' ∉ Row.text ⟨depth, k, recursive⟩ := by
  obtain ⟨kind, name⟩ := k
  cases kind <;> cases recursive <;>
    simpa [Row.text, markText, Key.text, Kind.opening, Kind.closing] using h

/-! ## Rows tell trees -/

/-- The first row of trees stands at their depth; if there are none, the rows after them come
    first. -/
theorem depth_head_rows {more : List Row} (h : ∀ r ∈ more.head?, r.depth < depth) :
    ∀ r ∈ (f.rows depth ++ more).head?, r.depth < depth + 1 := by
  cases f with
  | nil => exact fun r hr => (h r hr).trans (Nat.lt_succ_self depth)
  | cons root recursive below rest =>
    rintro r ⟨⟩
    exact Nat.lt_succ_self depth

/-- Rows that come first from above do not start with a row at the depth of the trees. -/
theorem ne_row_of_depth_head {root : Key} {recursive : Bool} {after more : List Row}
    (h : ∀ r ∈ more.head?, r.depth < depth) : more ≠ ⟨depth, root, recursive⟩ :: after := by
  rintro rfl
  exact Nat.lt_irrefl depth (h _ rfl)

/-- Trees end where a row stands above them, so that their rows tell them. -/
theorem rows_append_inj {more more' : List Row} (hmore : ∀ r ∈ more.head?, r.depth < depth)
    (hmore' : ∀ r ∈ more'.head?, r.depth < depth)
    (h : f.rows depth ++ more = g.rows depth ++ more') : f = g ∧ more = more' := by
  induction f generalizing g depth more more' with
  | nil =>
    cases g with
    | nil => exact ⟨rfl, h⟩
    | cons => exact absurd h (ne_row_of_depth_head hmore)
  | cons root recursive below rest ihBelow ihRest =>
    cases g with
    | nil => exact absurd h.symm (ne_row_of_depth_head hmore')
    | cons root' recursive' below' rest' =>
      simp only [rows, List.cons_append, List.append_assoc, List.cons.injEq, Row.mk.injEq,
        true_and] at h
      obtain ⟨⟨rfl, rfl⟩, hrows⟩ := h
      -- Behind the trees below comes the next tree at this depth, or else what is above it.
      obtain ⟨rfl, hrest⟩ := ihBelow (depth_head_rows hmore) (depth_head_rows hmore') hrows
      obtain ⟨rfl, rfl⟩ := ihRest hmore hmore' hrest
      exact ⟨rfl, rfl⟩

theorem rows_injective (h : f.rows depth = g.rows depth) : f = g := by
  have hnone : ∀ r ∈ ([] : List Row).head?, r.depth < depth := fun _ h => by cases h
  exact (rows_append_inj hnone hnone (congrArg (· ++ []) h)).1

/-- No name of a chunk in the trees has a line feed. -/
def Unbroken (f : Forest) : Prop := ∀ k ∈ f.keys, '\n' ∉ k.name.text

instance (f : Forest) : Decidable f.Unbroken :=
  inferInstanceAs (Decidable (∀ k ∈ f.keys, '\n' ∉ k.name.text))

theorem Unbroken.newline_notMem (h : f.Unbroken) (depth : Nat) :
    ∀ t ∈ (f.rows depth).map Row.text, '\n' ∉ t := by
  refine List.forall_mem_map.2 fun r hr => newline_notMem_text (h r.root ?_) r.depth r.recursive
  exact map_root_rows f depth ▸ List.mem_map_of_mem hr

/-- The text of trees has a line for each chunk. -/
theorem Unbroken.length_lines (h : f.Unbroken) (depth : Nat) :
    (Text.lines (f.render depth)).length = f.size := by
  rw [render_eq, Text.lines_unlines, Text.flatMap_reread_of_newline_notMem (h.newline_notMem depth),
    List.length_map, List.length_map, length_rows]

/-- The text of trees tells them. -/
theorem Unbroken.render_inj (hf : f.Unbroken) (hg : g.Unbroken) :
    f.render depth = g.render depth ↔ f = g := by
  constructor
  · intro h
    rw [render_eq, render_eq,
      Text.unlines_inj (hf.newline_notMem depth) (hg.newline_notMem depth)] at h
    exact rows_injective (List.map_injective_iff.2 (fun _ _ => Row.text_injective) h)
  · exact congrArg (render depth)

end Forest

namespace Tree

/-- No name of a chunk in the tree has a line feed. -/
def Unbroken (t : Tree) : Prop := t.toForest.Unbroken

instance (t : Tree) : Decidable t.Unbroken := inferInstanceAs (Decidable t.toForest.Unbroken)

theorem toForest_inj {t u : Tree} : t.toForest = u.toForest ↔ t = u := by
  cases t
  cases u
  simp [toForest]

/-- The text of a tree has a line for each chunk in it. Trees with the same text are the same, down
    to the marks and the order of the chunks. -/
theorem render_unambiguous (t : Tree) (ht : t.Unbroken) :
    (Text.lines t.render).length = t.size ∧
      ∀ u : Tree, u.Unbroken → (t.render = u.render ↔ t = u) :=
  ⟨ht.length_lines 0, fun _ hu => (ht.render_inj hu).trans toForest_inj⟩

/-- A chunk with a name that looks like the end of a marked line, below another one. -/
def feigned : Tree :=
  ⟨⟨.file, .ofText ['a']⟩, false,
    .cons ⟨.fragment, .ofText "b@> (recursive)".toList⟩ false .nil .nil⟩

/-- A chunk that is marked in fact. -/
def genuine : Tree :=
  ⟨⟨.file, .ofText ['a']⟩, false, .cons ⟨.fragment, .ofText ['b']⟩ true .nil .nil⟩

theorem render_feigned :
    feigned.Unbroken ∧ genuine.Unbroken ∧ (Text.lines feigned.render).length = 2 ∧
      feigned.render ≠ genuine.render := by
  have hfeigned : feigned.Unbroken := by decide
  have hgenuine : genuine.Unbroken := by decide
  obtain ⟨hlines, htells⟩ := render_unambiguous feigned hfeigned
  have hdistinct : feigned ≠ genuine := by decide
  exact ⟨hfeigned, hgenuine, hlines, mt (htells genuine hgenuine).1 hdistinct⟩

end Tree

end Tangle
