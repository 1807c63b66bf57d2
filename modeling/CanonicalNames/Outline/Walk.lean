import CanonicalNames.Outline.Basic

/-!
# Walks over the outline

Upward: the ancestors of a node, nearest first; the owner of an element, which ends at its
file; the file that a node belongs to. Downward: `walk` visits a node and everything below
it with a list of nodes still to visit, in the order that `turn` gives to the children of
each node.

A parent has a smaller number than its children, so that a node's own number bounds the
steps upward, and the number of places bounds the visits downward.
-/

namespace CanonicalNames.Outline

/-- The parent of a present node. -/
def parent? (outline : Outline) (id : NodeId) : Option NodeId :=
  (outline.node? id).bind Node.parent

/-- The nodes reached from a node by repeating a step upward, at most `steps` times. -/
def climb (next : NodeId → Option NodeId) : (steps : Nat) → NodeId → List NodeId
  | 0, _ => []
  | steps + 1, id =>
    match next id with
    | some above => above :: climb next steps above
    | none => []

/-- The ancestors of a node, from its parent to the root. -/
def ancestors (outline : Outline) (id : NodeId) : List NodeId :=
  climb outline.parent? id id

/-- The element around an element; a class outside every class is owned by its file. Files,
packages and the root have no owner. -/
def owner? (outline : Outline) (id : NodeId) : Option NodeId :=
  match outline.node? id with
  | some node => if node.kind.isOwned then node.parent else none
  | none => none

/-- A node followed by the chain of its owners. -/
def frames (outline : Outline) (id : NodeId) : List NodeId :=
  id :: climb outline.owner? id id

/-- The file that a node belongs to; a file belongs to itself. -/
def fileOf? (outline : Outline) (id : NodeId) : Option NodeId :=
  (id :: outline.ancestors id).find? (fun above => outline.kind? above == some .file)

/-- The children of a node that have a kind, in order. -/
def childrenOfKind (outline : Outline) (id : NodeId) (kind : Kind) : List NodeId :=
  match outline.node? id with
  | some node => node.children.filter (fun child => outline.kind? child == some kind)
  | none => []

/-- The type parameters of a class or method, in order. -/
def typeParameters (outline : Outline) (owner : NodeId) : List NodeId :=
  outline.childrenOfKind owner .typeParameter

/-- Visits the nodes of a list and everything below them. -/
def walk (outline : Outline) (turn : List NodeId → List NodeId) :
    (steps : Nat) → List NodeId → List NodeId
  | 0, _ => []
  | _ + 1, [] => []
  | steps + 1, id :: rest =>
    match outline.node? id with
    | some node => id :: walk outline turn steps (turn node.children ++ rest)
    | none => walk outline turn steps rest

/-- A node and everything below it, depth first, children in order. -/
def preorder (outline : Outline) (id : NodeId) : List NodeId :=
  walk outline (fun children => children) (outline.places.size + 1) [id]

/-- A node and everything below it, depth first, last child first: the order of removal. -/
def removalOrder (outline : Outline) (id : NodeId) : List NodeId :=
  walk outline List.reverse (outline.places.size + 1) [id]

/-- The methods at and below a node, in declaration order. -/
def methodsUnder (outline : Outline) (id : NodeId) : List NodeId :=
  (outline.preorder id).filter (fun node => outline.kind? node == some .method)

/-- The type uses at and below a node, in declaration order. -/
def refsUnder (outline : Outline) (id : NodeId) : List RefId :=
  (outline.preorder id).flatMap outline.refsOf

end CanonicalNames.Outline
