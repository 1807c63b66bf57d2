import CanonicalNames.Dotted

/-!
# Imports

A single import names one type by its dotted path; a wildcard import names a package, all
of whose types may be meant. Both may be written as in source code, with the keyword and
a semicolon.
-/

namespace CanonicalNames

/-- An import of a source file. -/
structure Import where
  /-- The dotted path, without the star of a wildcard import. -/
  path : String
  isWildcard : Bool
  deriving DecidableEq, Repr

namespace Import

/-- The text after the keyword `import` and a blank, or all of a text that does not start
so. -/
def dropKeyword (text : List Char) : List Char :=
  (("import ".toList).isPrefixOf? text).getD text

/-- Reads an import. -/
def parse (written : String) : Import :=
  let bare := Text.trim (Text.dropEndWhile (· == ';') (Text.trim written.toList))
  let path := Text.trim (dropKeyword bare)
  match (".*".toList).isSuffixOf? path with
  | some package => { path := String.ofList package, isWildcard := true }
  | none => { path := String.ofList path, isWildcard := false }

/-- The last segment of the path, which is what a single import lets a file write. -/
def simpleName (i : Import) : String :=
  Dotted.last i.path

end Import

end CanonicalNames
