import CanonicalNames.Declaration.Basic

/-!
# Elements

An element is one declared thing without what is declared inside it: a file, a class, a
method or a type parameter. It holds its type uses in slots, and a use is addressed by the
node that holds the element together with the slot.
-/

namespace CanonicalNames

/-- A node of the outline. The root is 0, and every attachment takes the next number. -/
abbrev NodeId := Nat

/-- What a node stands for. -/
inductive Kind where
  | root
  /-- A segment of a package name. -/
  | package
  | file
  | classDecl
  | method
  | typeParameter
  deriving DecidableEq, Repr

namespace Kind

/-- How messages name a kind. -/
def label : Kind → String
  | .root => "Root"
  | .package => "Package"
  | .file => "File"
  | .classDecl => "Class"
  | .method => "Method"
  | .typeParameter => "TypeParameter"

/-- Package segments take no subscribers; every other node does. -/
def isSubscribable (kind : Kind) : Bool :=
  kind != .package

/-- Elements inside a file are owned by the node above them. -/
def isOwned (kind : Kind) : Bool :=
  kind == .classDecl || kind == .method || kind == .typeParameter

end Kind

/-- The place of a type use inside its element. -/
inductive Slot where
  | returnType
  | supertype (position : Nat)
  | bound (position : Nat)
  deriving DecidableEq, Repr

/-- The address of a type use. -/
structure RefId where
  owner : NodeId
  slot : Slot
  deriving DecidableEq, Repr

namespace RefId

/-- The return type of a method. -/
def returnType (method : NodeId) : RefId :=
  ⟨method, .returnType⟩

/-- The address in short: `#4:return`, `#4:super[0]`, `#4:bound[0]`. -/
def label (ref : RefId) : String :=
  let owner := "#" ++ ref.owner.repr
  match ref.slot with
  | .returnType => owner ++ ":return"
  | .supertype position => owner ++ ":super[" ++ position.repr ++ "]"
  | .bound position => owner ++ ":bound[" ++ position.repr ++ "]"

end RefId

/-- A declared thing, without what is declared inside it. -/
inductive Element where
  | file (path : SourcePath) (package : String) (imports : List Import)
  | classDecl (name : String) (supertypes : List TypeUse)
  | method (name : String) (returnType : TypeUse)
  | typeParameter (name : String) (bounds : List TypeUse)
  deriving DecidableEq, Repr

/-- The key of a file among the children of its package. No dotted name has such a segment
in source code, so that files stay out of the way of lookups. -/
def fileMarker (path : SourcePath) : String :=
  "<file>" ++ path.spelling

namespace Element

/-- The kind of node that holds the element. -/
def kind : Element → Kind
  | .file .. => .file
  | .classDecl .. => .classDecl
  | .method .. => .method
  | .typeParameter .. => .typeParameter

/-- The key under which the element stands in its parent: its name, or a file's marker. -/
def segment : Element → String
  | .file path _ _ => fileMarker path
  | .classDecl name _ => name
  | .method name _ => name
  | .typeParameter name _ => name

/-- The type use in a slot. -/
def use? : Element → Slot → Option TypeUse
  | .method _ returnType, .returnType => some returnType
  | .classDecl _ supertypes, .supertype position => supertypes[position]?
  | .typeParameter _ bounds, .bound position => bounds[position]?
  | _, _ => none

/-- The slots that hold a type use, in order. -/
def slots : Element → List Slot
  | .file .. => []
  | .method .. => [.returnType]
  | .classDecl _ supertypes => (List.range supertypes.length).map .supertype
  | .typeParameter _ bounds => (List.range bounds.length).map .bound

/-- A slot is listed exactly when it holds a type use. -/
theorem mem_slots_iff {element : Element} {slot : Slot} :
    slot ∈ element.slots ↔ (element.use? slot).isSome = true := by
  cases element <;> cases slot <;> simp [slots, use?]

end Element

/-- The element of a declared type parameter. -/
def TypeParamDecl.toElement (param : TypeParamDecl) : Element :=
  .typeParameter param.name (param.bounds.map WrittenType.toUse)

/-- The element of a declared method. -/
def MethodDecl.toElement (method : MethodDecl) : Element :=
  .method method.name method.returnType.toUse

/-- The element of a declared class. -/
def ClassDecl.toElement (decl : ClassDecl) : Element :=
  .classDecl decl.name (decl.supertypes.map WrittenType.toUse)

/-- The element of a source file. -/
def FileDecl.toElement (file : FileDecl) : Element :=
  .file file.path file.package (file.imports.map Import.parse)

end CanonicalNames
