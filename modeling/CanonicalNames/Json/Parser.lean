import CanonicalNames.Json.Token

/-!
# Reading JSON

A document is built from its tokens one at a time. The state holds the arrays and objects
that are still open, innermost first, and what may come next; so reading is a fold over the
tokens, and takes no room on the stack however deep a document is nested.
-/

namespace CanonicalNames.Json

/-- An array or object that is still open, with its parts so far, latest first. -/
inductive Open where
  | items (done : List Json)
  /-- `isReadable` is false once a field without a proper name was read. -/
  | fields (done : List (String × Json)) (isReadable : Bool)
  /-- An object in the middle of a field. -/
  | field (name : Option String) (done : List (String × Json)) (isReadable : Bool)

/-- What may come next. -/
inductive Expects where
  | value
  /-- A value or the end of the array that was just opened. -/
  | valueOrEnd
  | name
  /-- A name or the end of the object that was just opened. -/
  | nameOrEnd
  | colon
  /-- A comma, or the end of what is open. -/
  | next

/-- A document in the middle of reading. -/
structure Reading where
  expects : Expects := .value
  opened : List Open := []
  /-- The document, once it is complete. -/
  result : Option Json := none

/-- Hands a complete value to the innermost open array or object. -/
def Reading.complete (opened : List Open) (value : Json) : Option Reading :=
  match opened with
  | [] => some { expects := .next, opened := [], result := some value }
  | .items done :: rest => some { expects := .next, opened := .items (value :: done) :: rest }
  | .field (some name) done isReadable :: rest =>
    some { expects := .next, opened := .fields ((name, value) :: done) isReadable :: rest }
  | .field none done _ :: rest =>
    some { expects := .next, opened := .fields done false :: rest }
  | .fields _ _ :: _ => none

/-- The object with the given fields, latest first. -/
def closedObject (done : List (String × Json)) (isReadable : Bool) : Json :=
  if isReadable then .object done.reverse else .unreadable

/-- Starts a value. -/
def Reading.startValue (opened : List Open) : Token → Option Reading
  | .openArray => some { expects := .valueOrEnd, opened := .items [] :: opened }
  | .openObject => some { expects := .nameOrEnd, opened := .fields [] true :: opened }
  | .scalar value => complete opened value
  | .string (some text) => complete opened (.string text)
  | .string none => complete opened .unreadable
  | _ => none

/-- Takes a token. -/
def Reading.step (reading : Reading) (token : Token) : Option Reading :=
  match reading.expects, reading.opened, token with
  | .valueOrEnd, .items [] :: rest, .closeArray => complete rest (.array [])
  | .value, opened, token => startValue opened token
  | .valueOrEnd, opened, token => startValue opened token
  | .nameOrEnd, .fields [] _ :: rest, .closeObject => complete rest (.object [])
  | .name, .fields done isReadable :: rest, .string name =>
    some { expects := .colon, opened := .field name done isReadable :: rest }
  | .nameOrEnd, .fields done isReadable :: rest, .string name =>
    some { expects := .colon, opened := .field name done isReadable :: rest }
  | .colon, opened, .colon => some { expects := .value, opened }
  | .next, .items done :: rest, .comma =>
    some { expects := .value, opened := .items done :: rest }
  | .next, .fields done isReadable :: rest, .comma =>
    some { expects := .name, opened := .fields done isReadable :: rest }
  | .next, .items done :: rest, .closeArray => complete rest (.array done.reverse)
  | .next, .fields done isReadable :: rest, .closeObject =>
    complete rest (closedObject done isReadable)
  | _, _, _ => none

/-- The document that some tokens form. -/
def ofTokens? (tokens : List Token) : Option Json :=
  (tokens.foldlM Reading.step {}).bind Reading.result

/-- The document that a text holds. -/
def parse? (text : String) : Option Json :=
  (tokens? text).bind ofTokens?

end CanonicalNames.Json
