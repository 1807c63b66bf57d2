import CanonicalNames.Declaration.Json
import CanonicalNames.Error
import CanonicalNames.Index.Insert

/-!
# Listings of types

A listing describes types one by one, without nesting: each entry names its package, its
class by a dotted name, and what the class declares. Entries with the same file go into
one source file; an entry without a file goes into the file of its outermost class.
Several entries may describe one class, whose parts are then put together in order, and a
class that is only named as the outside of another is created empty.
-/

namespace CanonicalNames

open Json (Decoder)

/-- One type of a listing. -/
structure ListedType where
  package : String := ""
  /-- The name below the package, dotted for a nested class. -/
  name : String
  file : Option SourcePath := none
  imports : List String := []
  supertypes : List WrittenType := []
  typeParams : List TypeParamDecl := []
  methods : List MethodDecl := []

/-- A flat description of classes. -/
structure Listing where
  types : List ListedType := []

namespace ListedType

/-- The document of a listed type. -/
def toJson (entry : ListedType) : Json :=
  .object [
    ("package", .string entry.package),
    ("name", .string entry.name),
    ("file", Json.ofOption (fun path => .string path.spelling) entry.file),
    ("imports", Json.strings entry.imports),
    ("supertypes", .array (entry.supertypes.map WrittenType.toJson)),
    ("type_parameters", .array (entry.typeParams.map TypeParamDecl.toJson)),
    ("methods", .array (entry.methods.map MethodDecl.toJson))]

/-- The names of the fields of a listed type, in order. -/
def fieldNames : List String :=
  ["package", "name", "file", "imports", "supertypes", "type_parameters", "methods"]

/-- Reads a listed type. -/
def decoder : Decoder ListedType := fun room document => do
  let fields ← Json.fields fieldNames room document
  let package ← fields.withDefault "package" "" Json.text
  let name ← fields.required "name" Json.text
  let file ← fields.withDefault "file" none (Json.optional Json.text)
  let imports ← fields.withDefault "imports" [] (Json.list Json.text)
  let supertypes ← fields.withDefault "supertypes" [] (Json.list WrittenType.decoder)
  let typeParams ← fields.withDefault "type_parameters" [] (Json.list TypeParamDecl.decoder)
  let methods ← fields.withDefault "methods" [] (Json.list MethodDecl.decoder)
  return { package, name, file := file.map SourcePath.mk, imports, supertypes, typeParams, methods }

/-- The source file that the type goes into. -/
def fileKey (entry : ListedType) : SourcePath :=
  match entry.file with
  | some file => file
  | none =>
    let folder : SourcePath :=
      (Dotted.segments entry.package).foldl (fun path segment => path.push ⟨segment⟩) ⟨""⟩
    folder.push ⟨Dotted.first entry.name ++ ".java"⟩

/-- The class with what the entry declares added to it. -/
def addTo (entry : ListedType) (decl : ClassDecl) : ClassDecl :=
  { decl with
    supertypes := decl.supertypes ++ entry.supertypes
    typeParams := decl.typeParams ++ entry.typeParams
    methods := decl.methods ++ entry.methods }

end ListedType

namespace ClassDecl

/-- Changes the first class with a name, or adds one at the end. -/
def changeNamed (name : String) (change : ClassDecl → ClassDecl) : List ClassDecl → List ClassDecl
  | [] => [change { name }]
  | decl :: rest =>
    if decl.name == name then change decl :: rest else decl :: changeNamed name change rest

/-- Changes the class with the given segments below some classes, and creates classes on the
way where there are none. -/
def changeAt (change : ClassDecl → ClassDecl) : List String → List ClassDecl → List ClassDecl
  | [], classes => classes
  | segment :: rest, classes =>
    changeNamed segment (fun decl =>
      if rest.isEmpty then change decl
      else { decl with classes := changeAt change rest decl.classes }) classes

end ClassDecl

namespace Listing

/-- The document of a listing. -/
def toJson (listing : Listing) : Json :=
  .object [("types", .array (listing.types.map ListedType.toJson))]

/-- Reads a listing. -/
def decoder : Decoder Listing := fun room document => do
  let fields ← Json.fields ["types"] room document
  let types ← fields.withDefault "types" [] (Json.list ListedType.decoder)
  return { types }

/-- Reads a listing from the text of a document. -/
def ofText (written : String) : Except Error Listing :=
  match Json.decodeText decoder written with
  | .ok listing => .ok listing
  | .error fault => .error (.json fault)

/-- A source file with one more listed type. -/
def addEntry (file : FileDecl) (entry : ListedType) : FileDecl :=
  { file with
    imports := entry.imports.foldl appendNew file.imports
    classes := ClassDecl.changeAt entry.addTo (Dotted.segments entry.name) file.classes }

/-- The source files so far with one more listed type. -/
def gather (files : Table SourcePath FileDecl) (entry : ListedType) :
    Except Error (Table SourcePath FileDecl) :=
  if entry.name.isEmpty || !Dotted.isValid entry.name then
    .error (.invalidInput (.badTypeName entry.name))
  else
    let key := entry.fileKey
    let file := (files.find? key).getD { path := key, package := entry.package }
    if file.package = entry.package then .ok (files.insert key (addEntry file entry))
    else .error (.invalidInput (.conflictingPackages key file.package entry.package))

/-- The source files of a listing, in the order in which entries first name them. -/
def toFiles (listing : Listing) : Except Error (List FileDecl) :=
  (listing.types.foldlM gather {}).map (fun files => files.entries.map Prod.snd)

/-- Inserts files one after the other. -/
def insertFiles : List FileDecl → Index.Edit Unit
  | [] => pure ()
  | file :: rest => do
    let _ ← Index.insertFile file
    insertFiles rest

/-- The index of a listing. -/
def load (listing : Listing) : Except Error Index :=
  match listing.toFiles with
  | .error error => .error error
  | .ok files =>
    match insertFiles files {} with
    | .ok _ index => .ok index
    | .error error _ => .error error

end Listing

end CanonicalNames
