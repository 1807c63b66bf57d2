import CanonicalNames.Index.Basic

/-!
# Inserting declarations

Elements are attached one at a time, and each attachment notifies the subscribers of every
node above it, nearest first. A file stands below package segments only, which are created
as they are needed; any other element inserted by its path goes below the first nodes that
answer to the segments before its own.

A declaration with parts is inserted from the outside in, and in each class type parameters
come first, nested classes next and methods last.
-/

namespace CanonicalNames.Index

/-- What subscribers of the nodes above a new node are told. -/
def arrivals (outline : Outline) (subscriptions : Subscriptions) (node : NodeId) :
    List Notification :=
  ((outline.ancestors node).filter (fun scope =>
      (outline.kind? scope).any Kind.isSubscribable)).flatMap (fun scope =>
    subscriptions.notices scope (.added node scope))

/-- Attaches a node as the last child of another. -/
def attach (parent : NodeId) (content : Content) (segment : String) : Edit NodeId := fun index =>
  match index.outline.node? parent with
  | none => .error (.unknownNode parent) index
  | some parentNode =>
    let (id, outline) := index.outline.attach parent parentNode.path content segment
    let outbox := index.outbox ++ arrivals outline index.subscriptions id
    .ok id { index with outline, outbox }

/-- The fault of an element that cannot be inserted anywhere. -/
def insertFault? (outline : Outline) (element : Element) : Option InputFault :=
  if element.segment.isEmpty then some (.unnamed element.kind)
  else
    match element with
    | .file path _ _ =>
      if outline.files.contains path then some (.alreadyIndexed path) else none
    | _ => none

/-- Attaches an element directly below a node. -/
def insertChild (parent : NodeId) (element : Element) : Edit NodeId := fun index =>
  match insertFault? index.outline element with
  | some fault => .error (.invalidInput fault) index
  | none => attach parent (.declared element) element.segment index

/-- Goes down from a node by segments, and creates a package segment where there is no node
to go to. The way of a file leads through packages only. -/
def descend (forFile : Bool) (parent : NodeId) : List String → Edit NodeId
  | [] => pure parent
  | segment :: rest => fun index =>
    let existing :=
      if forFile then index.outline.childPackage? parent segment
      else (index.outline.visibleChildren parent segment).head?
    match existing with
    | some child => descend forFile child rest index
    | none =>
      match attach parent .package segment index with
      | .ok child grown => descend forFile child rest grown
      | .error error reached => .error error reached

/-- The path of the node below which an element with the given path goes: for a file, which
is given the path of its package, that path; for any other element the path without its
last segment, which must be the element's name. -/
def parentPath? (path : String) (element : Element) : Option String :=
  if !Dotted.isValid path then none
  else if element.kind = .file then some path
  else if Dotted.last path = element.segment then some (Dotted.parent path)
  else none

/-- Inserts an element by its path. -/
def insertAt (path : String) (element : Element) : Edit NodeId := fun index =>
  match parentPath? path element with
  | none => .error (.invalidPath path) index
  | some above =>
    match descend (element.kind == .file) Outline.rootId (Dotted.segments above) index with
    | .ok parent grown => insertChild parent element grown
    | .error error reached => .error error reached

/-- Inserts type parameters below a class or method. -/
def insertTypeParams (owner : NodeId) : List TypeParamDecl → Edit Unit
  | [] => pure ()
  | param :: rest => do
    let _ ← insertChild owner param.toElement
    insertTypeParams owner rest

/-- Inserts a method with its type parameters. -/
def insertMethod (owner : NodeId) (method : MethodDecl) : Edit NodeId := do
  let id ← insertChild owner method.toElement
  insertTypeParams id method.typeParams
  return id

/-- Inserts methods one after the other. -/
def insertMethods (owner : NodeId) : List MethodDecl → Edit Unit
  | [] => pure ()
  | method :: rest => do
    let _ ← insertMethod owner method
    insertMethods owner rest

mutual

/-- Inserts a class and everything declared in it. -/
def insertClass (parent : NodeId) : ClassDecl → Edit NodeId
  | ⟨name, supertypes, typeParams, methods, classes⟩ => do
    let id ← insertChild parent (.classDecl name (supertypes.map WrittenType.toUse))
    insertTypeParams id typeParams
    insertClasses id classes
    insertMethods id methods
    return id

/-- Inserts classes one after the other. -/
def insertClasses (parent : NodeId) : List ClassDecl → Edit Unit
  | [] => pure ()
  | decl :: rest => do
    let _ ← insertClass parent decl
    insertClasses parent rest

end

/-- Inserts a file and everything declared in it. -/
def insertFile (file : FileDecl) : Edit NodeId := do
  let id ← insertAt file.package file.toElement
  insertClasses id file.classes
  return id

end CanonicalNames.Index
