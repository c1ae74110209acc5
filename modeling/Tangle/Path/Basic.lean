import Tangle.Text.Split

/-!
# Paths

A path is written as a text in which `/` separates *pieces*. It is kept as it is
written; what it means is its list of *components*: repeated and trailing
separators are not components, and neither is a piece `.`, unless the path
starts with it. Two paths are *alike* if they have the same components, and
paths are ordered by their components, so `a/b` comes before `a-b`.

A path consists of its *lead* (a separator, a first `.`, or neither) and the
pieces after it. All operations are operations on that list of pieces:

* `components` drops the pieces that do not count;
* `join` appends one path to another, unless that one is absolute;
* `parent?` removes the last piece that counts;
* `relativeTo?` removes the components of a directory from the front.
-/

namespace Tangle

/-- A path, as it is written. -/
structure Path where
  /-- The text of the path. -/
  text : Text
deriving DecidableEq, Inhabited

namespace Path

/-- The path written as the given literal. -/
def ofString (s : String) : Path := ⟨s.toList⟩

instance : ToString Path := ⟨fun p => String.ofList p.text⟩

/-- A step on the way that a path describes, in the order in which paths are
    sorted. -/
inductive Component
  /-- The root directory, at the start of an absolute path. -/
  | root
  /-- The directory itself, at the start of a relative path. -/
  | current
  /-- The directory above. -/
  | parent
  /-- The entry of that name. -/
  | normal (name : Text)
deriving DecidableEq, Ord, Inhabited

/-- The pieces with a separator between each two. -/
def unsplit (pieces : List Text) : Text := Text.joinWith ['/'] pieces

/-- The path starts at the root directory. -/
def isAbsolute (p : Path) : Bool := p.text.head? == some '/'

/-- What stands before the pieces: a separator, a first `.`, or nothing. -/
def lead (p : Path) : Option Component :=
  match p.text with
  | '/' :: _ => some .root
  | ['.'] => some .current
  | '.' :: '/' :: _ => some .current
  | _ => none

/-- The lead as it is written. -/
def leadText (p : Path) : Text := p.text.take p.lead.toList.length

/-- The pieces after the lead. -/
def pieces (p : Path) : List Text := Text.split '/' (p.text.drop p.lead.toList.length)

/-- An empty piece, or one that names the directory itself, does not count. -/
def ignorable (piece : Text) : Bool := piece == [] || piece == ['.']

/-- The component that a piece stands for. -/
def Component.ofPiece (piece : Text) : Component :=
  if piece = ['.', '.'] then .parent else .normal piece

/-- The components of a path. -/
def components (p : Path) : List Component :=
  p.lead.toList ++ (p.pieces.filter fun piece => !ignorable piece).map .ofPiece

/-- The two paths have the same components. -/
def alike (p q : Path) : Bool := p.components == q.components

/-- The order of paths: that of their components. -/
def le (p q : Path) : Bool := (compare p.components q.components).isLE

/-- `b`, taken from the directory `a`. -/
def join (a b : Path) : Path :=
  if b.isAbsolute then b
  else if a.text = [] ∨ a.text.getLast? = some '/' then ⟨a.text ++ b.text⟩
  else ⟨a.text ++ '/' :: b.text⟩

/-- The entry of the directory `a` with the name `name`. -/
def child (a : Path) (name : Text) : Path := a.join ⟨name⟩

/-- The pieces up to the last one that counts. -/
def trimRight (pieces : List Text) : List Text := (pieces.reverse.dropWhile ignorable).reverse

/-- The pieces from the first one that counts. -/
def trimLeft (pieces : List Text) : List Text := pieces.dropWhile ignorable

/-- The path without its last component. The root directory and the empty path
    have no parent; the parent of a single name, and of `.`, is empty. -/
def parent? (p : Path) : Option Path :=
  match trimRight p.pieces with
  | [] => if p.lead = some .current then some ⟨[]⟩ else none
  | piece :: more => some ⟨p.leadText ++ unsplit (trimRight (piece :: more).dropLast)⟩

/-- The pieces after the first `n` that count. -/
def dropCounting : Nat → List Text → List Text
  | 0, pieces => pieces
  | _, [] => []
  | n + 1, piece :: more => if ignorable piece then dropCounting (n + 1) more else dropCounting n more

/-- The path as seen from the directory `base`, if its components start with
    those of `base`. -/
def relativeTo? (p base : Path) : Option Path :=
  if base.components.isPrefixOf p.components then
    if base.components = [] then some ⟨p.leadText ++ unsplit (trimRight p.pieces)⟩
    else
      let inside := dropCounting (base.components.length - p.lead.toList.length) p.pieces
      some ⟨unsplit (trimRight (trimLeft inside))⟩
  else none

/-- The paths in order, each component list once: of several paths that are
    alike, the first. -/
def sorted (paths : List Path) : List Path :=
  dedup (paths.mergeSort le)
where
  /-- Of neighbours that are alike, only the first. -/
  dedup : List Path → List Path
    | [] => []
    | [p] => [p]
    | p :: q :: more => if p.alike q then dedup (p :: more) else p :: dedup (q :: more)

end Path

end Tangle
