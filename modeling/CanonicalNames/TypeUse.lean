import CanonicalNames.Text.Blank

/-!
# Written types

A type is written as a name, perhaps with type arguments, perhaps followed by array marks:
`Map.Entry<K, V>[]`. What is kept of it is its erasure, the name without arguments and
white space, and whether it is an array. `TypeUse.parse` reads a written type from its end,
so that marks are taken off one by one with the white space around them.
-/

namespace CanonicalNames

/-- A use of a type name. -/
structure TypeUse where
  /-- The dotted name as written, without arguments and white space. -/
  name : String
  isArray : Bool
  deriving DecidableEq, Repr

namespace TypeUse

/-- Takes trailing white space and array marks (`[]` or `...`) off a text that is given in
reverse; also says whether there was a mark. -/
def dropMarks : List Char → List Char × Bool
  | ']' :: '[' :: rest => ((dropMarks rest).1, true)
  | '.' :: '.' :: '.' :: rest => ((dropMarks rest).1, true)
  | c :: rest => if Text.isBlank c then dropMarks rest else (c :: rest, false)
  | [] => ([], false)

/-- The name in a written type without marks: what stands before the type arguments, without
white space. -/
def erase (text : List Char) : List Char :=
  Text.squeeze (text.takeWhile (· != '<'))

/-- Reads a written type. -/
def parse (written : String) : TypeUse :=
  let (rest, isArray) := dropMarks written.toList.reverse
  { name := String.ofList (erase rest.reverse), isArray }

/-- A name followed by empty brackets for an array. -/
def withBrackets (isArray : Bool) (name : String) : String :=
  if isArray then name ++ "[]" else name

end TypeUse

end CanonicalNames
