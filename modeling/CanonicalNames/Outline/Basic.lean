import CanonicalNames.Dotted
import CanonicalNames.Element
import CanonicalNames.Table

/-!
# The outline

The outline is the tree of everything that is declared: the root, package segments below
it, files below their package, and elements below their file. A node keeps its children in
order and, beside them, an index of the visible ones by segment and a list of the files.
Files are found by their source path as well.

Nodes are stored by number. A removed node leaves an empty place behind, and the next
number is the number of places, so that no number is ever used twice.
-/

namespace CanonicalNames

/-- What a node holds. -/
inductive Content where
  | root
  | package
  | declared (element : Element)
  deriving DecidableEq, Repr

namespace Content

/-- The kind of a node with this content. -/
def kind : Content → Kind
  | .root => .root
  | .package => .package
  | .declared element => element.kind

/-- The element, where there is one. -/
def element? : Content → Option Element
  | .declared element => some element
  | _ => none

end Content

/-- A node of the outline. -/
structure Node where
  content : Content
  /-- The key under the parent: a simple name, or the marker of a file. -/
  segment : String
  parent : Option NodeId
  /-- The dotted path. A file has the path of its package. -/
  path : String
  /-- All children, in the order of attachment. -/
  children : List NodeId := []
  /-- The children that are not files, by segment. -/
  bySegment : Table String (List NodeId) := {}
  /-- The children that are files. -/
  files : List NodeId := []
  deriving DecidableEq

namespace Node

/-- The kind of a node. -/
def kind (node : Node) : Kind :=
  node.content.kind

/-- The element of a node, where there is one. -/
def element? (node : Node) : Option Element :=
  node.content.element?

/-- The visible children with a segment. -/
def named (node : Node) (segment : String) : List NodeId :=
  (node.bySegment.find? segment).getD []

/-- The node with one more child. -/
def addChild (node : Node) (child : NodeId) (kind : Kind) (segment : String) : Node :=
  let node := { node with children := node.children ++ [child] }
  if kind = .file then { node with files := node.files ++ [child] }
  else
    { node with bySegment := node.bySegment.insert segment (node.named segment ++ [child]) }

/-- The node without a child; a segment that no child has leaves the index. -/
def dropChild (node : Node) (child : NodeId) : Node :=
  { node with
    children := without node.children child
    files := without node.files child
    bySegment := ⟨node.bySegment.entries.filterMap (fun entry =>
      match without entry.2 child with
      | [] => none
      | rest => some (entry.1, rest))⟩ }

end Node

/-- All nodes by number, and the files by source path. -/
structure Outline where
  places : Array (Option Node)
  files : Table SourcePath NodeId := {}
  deriving DecidableEq

namespace Outline

/-- The root has number 0. -/
def rootId : NodeId := 0

/-- An outline with nothing but the root. -/
def empty : Outline where
  places := #[some { content := .root, segment := "", parent := none, path := "" }]

/-- The node with a number, if it is present. -/
def node? (outline : Outline) (id : NodeId) : Option Node :=
  (outline.places[id]?).join

/-- Whether a node is present. -/
def contains (outline : Outline) (id : NodeId) : Bool :=
  (outline.node? id).isSome

/-- The kind of a present node. -/
def kind? (outline : Outline) (id : NodeId) : Option Kind :=
  (outline.node? id).map Node.kind

/-- The element of a present node, where it has one. -/
def element? (outline : Outline) (id : NodeId) : Option Element :=
  (outline.node? id).bind Node.element?

/-- The path of a present node. -/
def path? (outline : Outline) (id : NodeId) : Option String :=
  (outline.node? id).map Node.path

/-- The number of nodes that are present. -/
def count (outline : Outline) : Nat :=
  (outline.places.toList.filter Option.isSome).length

/-- The type use at an address. -/
def use? (outline : Outline) (ref : RefId) : Option TypeUse :=
  (outline.element? ref.owner).bind (fun element => element.use? ref.slot)

/-- The file with a source path. -/
def fileAt? (outline : Outline) (path : SourcePath) : Option NodeId :=
  outline.files.find? path

/-- The addresses of all type uses in a node. -/
def refsOf (outline : Outline) (id : NodeId) : List RefId :=
  match outline.element? id with
  | some element => element.slots.map (fun slot => ⟨id, slot⟩)
  | none => []

/-- The addresses of all type uses, by node number. -/
def refs (outline : Outline) : List RefId :=
  (List.range outline.places.size).flatMap outline.refsOf

/-- Puts a node, or nothing, into an existing place. -/
def setPlace (outline : Outline) (id : NodeId) (place : Option Node) : Outline :=
  { outline with places := outline.places.setIfInBounds id place }

/-- Changes a node that is present. -/
def update (outline : Outline) (id : NodeId) (change : Node → Node) : Outline :=
  match outline.node? id with
  | some node => outline.setPlace id (some (change node))
  | none => outline

/-- A place that exists holds what was put there. -/
theorem node?_set_place_self {outline : Outline} {id : NodeId} (place : Option Node)
    (h : id < outline.places.size) : (outline.setPlace id place).node? id = place := by
  simp [node?, setPlace, h]

/-- Other places keep what they held. -/
theorem node?_set_place_of_ne {outline : Outline} {id other : NodeId} (place : Option Node)
    (h : id ≠ other) : (outline.setPlace id place).node? other = outline.node? other := by
  simp [node?, setPlace, Array.getElem?_setIfInBounds_ne h]

/-- A present node has a place. -/
theorem lt_size_of_node? {outline : Outline} {id : NodeId} {node : Node}
    (h : outline.node? id = some node) : id < outline.places.size := by
  rcases Nat.lt_or_ge id outline.places.size with hlt | hge
  · exact hlt
  · simp [node?, Array.getElem?_eq_none hge] at h

/-- Attaches a node as the last child of a present node with the given path, and returns its
number. -/
def attach (outline : Outline) (parent : NodeId) (parentPath : String) (content : Content)
    (segment : String) : NodeId × Outline :=
  let id := outline.places.size
  let kind := content.kind
  let path := if kind = .file then parentPath else Dotted.join parentPath segment
  let node : Node := { content, segment, parent := some parent, path }
  let files :=
    match content with
    | .declared (.file source _ _) => outline.files.insert source id
    | _ => outline.files
  let grown : Outline := { places := outline.places.push (some node), files }
  (id, grown.update parent (fun node => node.addChild id kind segment))

/-- A change of a node is seen at that node alone. -/
theorem node?_update (outline : Outline) (id other : NodeId) (change : Node → Node) :
    (outline.update id change).node? other =
      if other = id then (outline.node? other).map change else outline.node? other := by
  unfold update
  split
  · next node h =>
      by_cases ho : other = id
      · subst ho
        simp [node?_set_place_self _ (lt_size_of_node? h), h]
      · simp [ho, node?_set_place_of_ne _ (Ne.symm ho)]
  · next h =>
      by_cases ho : other = id
      · subst ho
        simp [h]
      · simp [ho]

/-- Takes a node out, and its path if it is a file. The parent is not told. -/
def dropNode (outline : Outline) (id : NodeId) : Outline :=
  let files :=
    match outline.element? id with
    | some (.file source _ _) => outline.files.erase source
    | _ => outline.files
  { outline.setPlace id none with files }

/-- Takes a child off a node. -/
def detach (outline : Outline) (parent child : NodeId) : Outline :=
  outline.update parent (fun node => node.dropChild child)

end Outline

end CanonicalNames
