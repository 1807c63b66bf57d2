import CanonicalNames.Import
import CanonicalNames.SourcePath
import CanonicalNames.TypeUse

/-!
# Declarations

What a parser hands over for a source file: its package and imports, its classes with
their supertypes, type parameters, methods and nested classes, and every type as it was
written. Declarations carry no result of resolution.
-/

namespace CanonicalNames

/-- A type in a declaration: the written text, or a name with an explicit array flag. -/
inductive WrittenType where
  | text (written : String)
  | detailed (name : String) (isArray : Bool)
  deriving DecidableEq, Repr

/-- The use that a written type stands for; marks in a detailed name count as well. -/
def WrittenType.toUse : WrittenType → TypeUse
  | .text written => TypeUse.parse written
  | .detailed name isArray =>
    let parsed := TypeUse.parse name
    { name := parsed.name, isArray := isArray || parsed.isArray }

/-- A type parameter with its bounds. -/
structure TypeParamDecl where
  name : String
  bounds : List WrittenType := []
  deriving DecidableEq, Repr

/-- A method with its return type and its own type parameters. -/
structure MethodDecl where
  name : String
  returnType : WrittenType
  typeParams : List TypeParamDecl := []
  deriving DecidableEq, Repr

/-- A class and everything declared in it. -/
structure ClassDecl where
  name : String
  supertypes : List WrittenType := []
  typeParams : List TypeParamDecl := []
  methods : List MethodDecl := []
  /-- Nested classes. -/
  classes : List ClassDecl := []

/-- A source file. -/
structure FileDecl where
  path : SourcePath
  /-- The dotted name of the package, empty for the default package. -/
  package : String := ""
  /-- Imports as written. -/
  imports : List String := []
  classes : List ClassDecl := []

end CanonicalNames
