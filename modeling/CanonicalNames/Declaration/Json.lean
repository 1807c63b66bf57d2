import CanonicalNames.Declaration.Basic
import CanonicalNames.Json.Decode

/-!
# Declarations as JSON

Encoders and decoders of declarations. Every field is written; on reading, all but names,
paths and return types have a default. A written type keeps its form: a text is read back
as a text, and a detailed type as a detailed one.
-/

namespace CanonicalNames

open Json (Decoder Fault)

namespace WrittenType

/-- The document of a written type. -/
def toJson : WrittenType → Json
  | .text written => .string written
  | .detailed name isArray => .object [("name", .string name), ("array", .bool isArray)]

/-- Reads a written type. It is looked at as a whole before its form is known, so that all of
its parts must be readable and within the room. -/
def decoder : Decoder WrittenType
  | _, .string written => .ok (.text written)
  | room, .object all => do
    unless (Json.object all).isReadable room do
      throw (.mismatch "a readable document")
    let fields ← Json.fields ["name", "array"] room (.object all)
    let name ← fields.required "name" Json.text
    let isArray ← fields.withDefault "array" false Json.flag
    return .detailed name isArray
  | _, _ => .error (.mismatch "a written type")

end WrittenType

namespace TypeParamDecl

/-- The document of a type parameter. -/
def toJson (param : TypeParamDecl) : Json :=
  .object [("name", .string param.name), ("bounds", .array (param.bounds.map WrittenType.toJson))]

/-- Reads a type parameter. -/
def decoder : Decoder TypeParamDecl := fun room document => do
  let fields ← Json.fields ["name", "bounds"] room document
  let name ← fields.required "name" Json.text
  let bounds ← fields.withDefault "bounds" [] (Json.list WrittenType.decoder)
  return { name, bounds }

end TypeParamDecl

namespace MethodDecl

/-- The document of a method. -/
def toJson (method : MethodDecl) : Json :=
  .object [
    ("name", .string method.name),
    ("return_type", method.returnType.toJson),
    ("type_parameters", .array (method.typeParams.map TypeParamDecl.toJson))]

/-- Reads a method. -/
def decoder : Decoder MethodDecl := fun room document => do
  let fields ← Json.fields ["name", "return_type", "type_parameters"] room document
  let name ← fields.required "name" Json.text
  let returnType ← fields.required "return_type" WrittenType.decoder
  let typeParams ← fields.withDefault "type_parameters" [] (Json.list TypeParamDecl.decoder)
  return { name, returnType, typeParams }

end MethodDecl

namespace ClassDecl

mutual

/-- The document of a class. -/
def toJson : ClassDecl → Json
  | ⟨name, supertypes, typeParams, methods, classes⟩ =>
    .object [
      ("name", .string name),
      ("supertypes", .array (supertypes.map WrittenType.toJson)),
      ("type_parameters", .array (typeParams.map TypeParamDecl.toJson)),
      ("methods", .array (methods.map MethodDecl.toJson)),
      ("classes", .array (listToJson classes))]

/-- The documents of some classes. -/
def listToJson : List ClassDecl → List Json
  | [] => []
  | decl :: rest => decl.toJson :: listToJson rest

end

/-- The names of the fields of a class, in order. -/
def fieldNames : List String :=
  ["name", "supertypes", "type_parameters", "methods", "classes"]

mutual

/-- Reads a class. -/
def decoder : (room : Nat) → Json → Except Fault ClassDecl
  | 0, _ => .error .tooDeep
  | room + 1, document => do
    let fields ← Json.fields fieldNames (room + 1) document
    let name ← fields.required "name" Json.text
    let supertypes ← fields.withDefault "supertypes" [] (Json.list WrittenType.decoder)
    let typeParams ← fields.withDefault "type_parameters" [] (Json.list TypeParamDecl.decoder)
    let methods ← fields.withDefault "methods" [] (Json.list MethodDecl.decoder)
    let classes ←
      match fields.find? "classes" with
      | some nested => listDecoder room nested
      | none => pure []
    return { name, supertypes, typeParams, methods, classes }

/-- Reads an array of classes. -/
def listDecoder : (room : Nat) → Json → Except Fault (List ClassDecl)
  | 0, _ => .error .tooDeep
  | room + 1, .array items => items.mapM (decoder room)
  | _, _ => .error (.mismatch "an array")

end

end ClassDecl

namespace FileDecl

/-- The document of a source file. -/
def toJson (file : FileDecl) : Json :=
  .object [
    ("path", .string file.path.spelling),
    ("package", .string file.package),
    ("imports", Json.strings file.imports),
    ("classes", .array (ClassDecl.listToJson file.classes))]

/-- Reads a source file. -/
def decoder : Decoder FileDecl := fun room document => do
  let fields ← Json.fields ["path", "package", "imports", "classes"] room document
  let path ← fields.required "path" Json.text
  let package ← fields.withDefault "package" "" Json.text
  let imports ← fields.withDefault "imports" [] (Json.list Json.text)
  let classes ← fields.withDefault "classes" [] ClassDecl.listDecoder
  return { path := ⟨path⟩, package, imports, classes }

end FileDecl

end CanonicalNames
