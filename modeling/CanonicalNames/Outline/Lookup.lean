import CanonicalNames.Outline.Walk

/-!
# Lookup by dotted name

A name is followed segment by segment from the root. Files are transparent: the children
of a package's files count as children of the package. Several nodes may answer to one
name, such as overloads or a package and a class, so that all candidates are followed.
-/

namespace CanonicalNames.Outline

/-- The children of a node with a segment, then those of its files in order. -/
def visibleChildren (outline : Outline) (id : NodeId) (segment : String) : List NodeId :=
  match outline.node? id with
  | none => []
  | some node =>
    node.named segment ++ node.files.flatMap (fun file =>
      match outline.node? file with
      | some fileNode => fileNode.named segment
      | none => [])

/-- The first package segment among the children of a node with a segment. -/
def childPackage? (outline : Outline) (id : NodeId) (segment : String) : Option NodeId :=
  match outline.node? id with
  | some node => (node.named segment).find? (fun child => outline.kind? child == some .package)
  | none => none

/-- One segment further from every candidate. -/
def follow (outline : Outline) (candidates : List NodeId) (segment : String) : List NodeId :=
  candidates.flatMap (fun id => outline.visibleChildren id segment)

/-- Every node with a dotted name. -/
def lookupAll (outline : Outline) (name : String) : List NodeId :=
  if name.isEmpty || !Dotted.isValid name then []
  else (Dotted.segments name).foldl outline.follow [rootId]

/-- The first node with a dotted name. -/
def lookup? (outline : Outline) (name : String) : Option NodeId :=
  (outline.lookupAll name).head?

/-- The first class with a dotted name. -/
def lookupType? (outline : Outline) (name : String) : Option NodeId :=
  (outline.lookupAll name).find? (fun id => outline.kind? id == some .classDecl)

end CanonicalNames.Outline
