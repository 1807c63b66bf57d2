import CanonicalNames.Json.Parser

/-!
# Reading values out of documents

A decoder is given how many arrays and objects may still be entered (`room`) and a
document. A record is written as an object, in which fields of other names do not count
and a repeated name is a fault, or as an array of its fields in order, of which trailing
ones may be left out.

A document that was read from a text may nest what is looked at to `Json.textRoom` levels;
`Json.decodeText` applies that limit and `Json.decode` none.
-/

namespace CanonicalNames

namespace Json

/-- What keeps a document from being read as a value. -/
inductive Fault where
  /-- The text is not JSON. -/
  | malformed
  /-- The document nests deeper than the reader follows. -/
  | tooDeep
  /-- A part has another type than the one called for. -/
  | mismatch (expected : String)
  | missingField (name : String)
  | repeatedField (name : String)
  /-- An array with more elements than the record has fields. -/
  | extraElements
  deriving DecidableEq, Repr

/-- What is wrong, in words. -/
def Fault.message : Fault → String
  | .malformed => "malformed document"
  | .tooDeep => "recursion limit exceeded"
  | .mismatch expected => "expected " ++ expected
  | .missingField name => "missing field " ++ name
  | .repeatedField name => "duplicate field " ++ name
  | .extraElements => "too many elements"

/-- Reads a value, entering at most the given number of arrays and objects. -/
abbrev Decoder (α : Type) := (room : Nat) → Json → Except Fault α

/-- A text. -/
def text : Decoder String
  | _, .string value => .ok value
  | _, _ => .error (.mismatch "a string")

/-- A truth value. -/
def flag : Decoder Bool
  | _, .bool value => .ok value
  | _, _ => .error (.mismatch "a boolean")

/-- An array of values. -/
def list {α : Type} (item : Decoder α) : Decoder (List α)
  | room + 1, .array items => items.mapM (item room)
  | 0, .array _ => .error .tooDeep
  | _, _ => .error (.mismatch "an array")

/-- A value or `null`. -/
def optional {α : Type} (value : Decoder α) : Decoder (Option α)
  | _, .null => .ok none
  | room, document => (value room document).map some

/-- The first name that occurs twice. -/
def repeated? : List String → Option String
  | [] => none
  | name :: rest => if rest.contains name then some name else repeated? rest

/-- The fields of a record, each name at most once, and the room that their values have. -/
structure Fields where
  room : Nat
  values : List (String × Json)

/-- The fields that a document gives to a record with the given field names. -/
def fields (names : List String) : (room : Nat) → Json → Except Fault Fields
  | 0, .object _ => .error .tooDeep
  | 0, .array _ => .error .tooDeep
  | room + 1, .object all =>
    let known := all.filter (fun field => names.contains field.1)
    match repeated? (known.map Prod.fst) with
    | some name => .error (.repeatedField name)
    | none => .ok { room, values := known }
  | room + 1, .array items =>
    if names.length < items.length then .error .extraElements
    else .ok { room, values := names.zip items }
  | _, _ => .error (.mismatch "a record")

namespace Fields

/-- The document of a field. -/
def find? (fields : Fields) (name : String) : Option Json :=
  (fields.values.find? (fun field => field.1 == name)).map Prod.snd

/-- The value of a field that must be there. -/
def required {α : Type} (fields : Fields) (name : String) (value : Decoder α) :
    Except Fault α :=
  match fields.find? name with
  | some document => value fields.room document
  | none => .error (.missingField name)

/-- The value of a field, or a default. -/
def withDefault {α : Type} (fields : Fields) (name : String) (default : α)
    (value : Decoder α) : Except Fault α :=
  match fields.find? name with
  | some document => value fields.room document
  | none => .ok default

end Fields

/-- Reads a value from a document, however deep it is nested. -/
def decode {α : Type} (value : Decoder α) (document : Json) : Except Fault α :=
  value document.depth document

/-- How deep a text may nest arrays and objects that are looked at. -/
def textRoom : Nat := 127

/-- Reads a value from the text of a document. -/
def decodeText {α : Type} (value : Decoder α) (written : String) : Except Fault α :=
  match parse? written with
  | some document => value textRoom document
  | none => .error .malformed

end Json

end CanonicalNames
