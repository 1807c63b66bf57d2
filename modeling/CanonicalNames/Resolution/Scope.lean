import CanonicalNames.Resolution.Basic

/-!
# Scopes

The order in which a name is searched. First the keywords of primitive types, then the
name taken as a full path, then the element where the search starts and everything around
it, from the inside out:

* a method knows its type parameters;
* a class knows its nested classes, its type parameters, and what its supertypes know;
* a file knows its single imports, its package, its wildcard imports and `java.lang`.

A type parameter stands for its first bound, or for `java.lang.Object`. Bounds and
supertypes are references of their own and are resolved by the `resolver` that a scope is
given.
-/

namespace CanonicalNames

/-- The keywords that name a type without a declaration. -/
def primitives : List String :=
  ["byte", "short", "int", "long", "float", "double", "char", "boolean", "void"]

/-- A keyword that names a type without a declaration. -/
def isPrimitive (name : String) : Bool :=
  primitives.contains name

/-- The package that every file imports. -/
def basePackage : String := "java.lang"

/-- What a type parameter without bounds stands for. -/
def topType : String := "java.lang.Object"

namespace Scope

/-- The class with a path. -/
def declared (outline : Outline) (path : String) : Option Hit :=
  (outline.lookupType? path).map .declared

/-- The primitive type with a name. -/
def builtin (name : String) : Option Hit :=
  if Dotted.isSingle name && isPrimitive name then some (.primitive name) else none

/-- A name that is the name of the type parameter `param`. A parameter whose bound does not
resolve is not found. -/
def typeParameter (outline : Outline) (resolver : Resolver) (name : String) (param : NodeId) :
    Probe := fun pass =>
  match outline.element? param with
  | some (.typeParameter paramName bounds) =>
    if Dotted.isSingle name && paramName == name then
      if bounds.isEmpty then (some (.typeParameter param topType none), pass)
      else
        let bound : RefId := ⟨param, .bound 0⟩
        match resolver bound (outline.owner? param) pass with
        | (.resolved canonical, pass) =>
          (some (.typeParameter param canonical (pass.standing bound).subscription), pass)
        | (_, pass) => (none, pass)
    else (none, pass)
  | _ => (none, pass)

/-- Whether a node is a type parameter with a name. -/
def isParameterNamed (outline : Outline) (name : String) (param : NodeId) : Bool :=
  match outline.element? param with
  | some (.typeParameter paramName _) => paramName == name
  | _ => false

/-- The first type parameter of a class or method with a name. -/
def typeParameters (outline : Outline) (resolver : Resolver) (name : String) (owner : NodeId) :
    Probe := fun pass =>
  match (outline.typeParameters owner).find? (isParameterNamed outline name) with
  | some param => typeParameter outline resolver name param pass
  | none => (none, pass)

/-- The path of a name inside a class. A name that starts with the class's own name is
searched beside the class. -/
def nestedPath (className classPath name : String) : String :=
  Dotted.join (if Dotted.first name == className then Dotted.parent classPath else classPath) name

/-- The supertype at a position is resolved from around the class; if it is known, the name is
searched below it. -/
def inherited (outline : Outline) (resolver : Resolver) (name : String) (classId : NodeId)
    (position : Nat) : Probe := fun pass =>
  let around := (outline.owner? classId).getD Outline.rootId
  match resolver ⟨classId, .supertype position⟩ (some around) pass with
  | (.resolved canonical, pass) => (declared outline (Dotted.join canonical name), pass)
  | (_, pass) => (none, pass)

/-- The single import that lets a file write the first segment of a name. An import of a type
outside the outline is trusted. -/
def singleImport (outline : Outline) (imports : List Import) (name : String) : Option Hit :=
  (imports.find? (fun i => !i.isWildcard && i.simpleName == Dotted.first name)).map (fun i =>
    let path := Dotted.replaceFirst name i.path
    (declared outline path).getD (.dependency path))

/-- The first wildcard import with a class of that name. -/
def wildcardImport (outline : Outline) (imports : List Import) (name : String) : Option Hit :=
  (imports.filter Import.isWildcard).findSome? (fun i =>
    declared outline (Dotted.join i.path name))

/-- The search steps of an element around a name. -/
def probes (outline : Outline) (resolver : Resolver) (name : String) (frame : NodeId) :
    List Probe :=
  match outline.node? frame with
  | none => []
  | some node =>
    match node.element? with
    | some (.method _ _) => [typeParameters outline resolver name frame]
    | some (.typeParameter _ _) => [typeParameter outline resolver name frame]
    | some (.classDecl className supertypes) =>
      [Probe.ofHit? (declared outline (nestedPath className node.path name)),
        typeParameters outline resolver name frame] ++
      (List.range supertypes.length).map (inherited outline resolver name frame)
    | some (.file _ package imports) =>
      [Probe.ofHit? (singleImport outline imports name),
        Probe.ofHit? (declared outline (Dotted.join package name)),
        Probe.ofHit? (wildcardImport outline imports name),
        Probe.ofHit? (declared outline (Dotted.join basePackage name))]
    | none => []

/-- All search steps for a name from a node outward. -/
def search (outline : Outline) (resolver : Resolver) (name : String) (anchor : NodeId) :
    List Probe :=
  [Probe.ofHit? (builtin name), Probe.ofHit? (declared outline name)] ++
    (outline.frames anchor).flatMap (probes outline resolver name)

end Scope

end CanonicalNames
