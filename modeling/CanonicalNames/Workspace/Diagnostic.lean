import CanonicalNames.SourcePath

/-!
# Diagnostics

A finding about the return type of one method of a source file.
-/

namespace CanonicalNames

/-- How much a finding matters. -/
inductive Severity where
  | warning
  | information
  deriving DecidableEq, Repr

/-- How a printed finding names its severity. -/
def Severity.label : Severity → String
  | .warning => "warning"
  | .information => "info"

/-- A finding about a return type. Findings about the same file under different spellings of
its path may be equal (`==`). -/
structure Diagnostic where
  path : SourcePath
  /-- The dotted path of the method. -/
  method : String
  /-- The type name as written. -/
  reference : String
  severity : Severity
  message : String
  deriving BEq, Repr

namespace Diagnostic

/-- The return type has no canonical name. -/
def unresolved (path : SourcePath) (method reference : String) : Diagnostic where
  path
  method
  reference
  severity := .warning
  message := "cannot resolve type '" ++ reference ++ "'"

/-- The return type was taken from an import outside the outline. -/
def dependency (path : SourcePath) (method reference canonical : String) : Diagnostic where
  path
  method
  reference
  severity := .information
  message :=
    "type '" ++ reference ++ "' is taken from unindexed import '" ++ canonical ++ "'"

/-- The finding on one line. -/
def display (diagnostic : Diagnostic) : String :=
  diagnostic.path.spelling ++ ": " ++ diagnostic.severity.label ++ " [" ++ diagnostic.method ++
    "]: " ++ diagnostic.message

end Diagnostic

end CanonicalNames
