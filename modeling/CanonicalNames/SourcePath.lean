import CanonicalNames.Text.Pieces

/-!
# Source paths

A source path is printed as it was spelled and compared by its components: repeated and
trailing slashes do not count, nor does a dot component other than a leading one, and a
step up is never folded. Two spellings with the same components denote the same file
(`==`), and paths are ordered component by component.
-/

namespace CanonicalNames

/-- A step of a path. -/
inductive Component where
  /-- The leading slash of an absolute path. -/
  | root
  /-- A leading dot. -/
  | here
  /-- Two dots. -/
  | up
  | name (text : String)
  deriving DecidableEq, Repr

namespace Component

/-- The component written by a piece of a path; empty pieces and dots write none. -/
def ofPiece? (piece : List Char) : Option Component :=
  if piece = [] ∨ piece = ['.'] then none
  else if piece = ['.', '.'] then some .up
  else some (.name (String.ofList piece))

/-- Lexicographic order of keys is the order of components: the root, a leading dot,
steps up, then names by code point. -/
def key : Component → List Nat
  | .root => [0]
  | .here => [1]
  | .up => [2]
  | .name text => 3 :: text.toList.map Char.toNat

/-- Whether a component comes before another. -/
def blt (left right : Component) : Bool :=
  List.lex left.key right.key Nat.blt

end Component

/-- The path of a source file, as it was spelled. -/
structure SourcePath where
  spelling : String
  deriving DecidableEq, Repr, Inhabited

namespace SourcePath

/-- The steps that a path consists of. -/
def components (path : SourcePath) : List Component :=
  match Text.pieces '/' path.spelling.toList with
  | [] => []
  | start :: rest =>
    let leading :=
      if start = [] then (if rest = [] then [] else [.root])
      else if start = ['.'] then [.here]
      else (Component.ofPiece? start).toList
    leading ++ rest.filterMap Component.ofPiece?

/-- Paths are equal as keys when they have the same components. -/
instance : BEq SourcePath where
  beq left right := left.components == right.components

/-- Two paths are equal as keys exactly when they have the same components. -/
theorem beq_iff_components_eq {left right : SourcePath} :
    (left == right) = true ↔ left.components = right.components := by
  change (left.components == right.components) = true ↔ _
  exact beq_iff_eq

/-- Equality of keys is an equivalence. -/
instance : EquivBEq SourcePath where
  rfl := beq_iff_components_eq.2 rfl
  symm h := beq_iff_components_eq.2 (beq_iff_components_eq.1 h).symm
  trans h k := beq_iff_components_eq.2 ((beq_iff_components_eq.1 h).trans
    (beq_iff_components_eq.1 k))

/-- A path that starts at the root. -/
def isAbsolute (path : SourcePath) : Bool :=
  path.spelling.toList.head? == some '/'

/-- The order of paths: component by component, a path before its extensions. -/
def ble (left right : SourcePath) : Bool :=
  !List.lex right.components left.components Component.blt

/-- The path followed by a further one; an absolute path replaces what stands before it. -/
def push (path next : SourcePath) : SourcePath :=
  if next.isAbsolute then next
  else
    match path.spelling.toList.getLast? with
    | none => next
    | some '/' => ⟨path.spelling ++ next.spelling⟩
    | some _ => ⟨path.spelling ++ "/" ++ next.spelling⟩

/-- Drops every path that equals the last one kept. -/
def dedupAfter (kept : SourcePath) : List SourcePath → List SourcePath
  | [] => []
  | path :: rest =>
    if path == kept then dedupAfter kept rest else path :: dedupAfter path rest

/-- Drops every path that equals the one before it. -/
def dedup : List SourcePath → List SourcePath
  | [] => []
  | path :: rest => path :: dedupAfter path rest

/-- The paths in order, each once. -/
def sorted (paths : List SourcePath) : List SourcePath :=
  dedup (paths.mergeSort ble)

end SourcePath

end CanonicalNames
