/-!
# JSON documents

A document keeps the fields of an object in the order in which they were written, repeated
names included: which of them count is for the reader of the document to say. Some written
values stand for nothing, such as a string with half of a surrogate pair; they are
`unreadable`, and harm only a reader who looks at them.
-/

namespace CanonicalNames

/-- A JSON document. -/
inductive Json where
  | null
  | bool (value : Bool)
  /-- An integer literal without a sign, below two to the power of sixty-four. -/
  | natural (value : Nat)
  /-- Any other number, as it was written. -/
  | decimal (literal : String)
  | string (text : String)
  | array (items : List Json)
  | object (fields : List (String × Json))
  /-- A string, an object or a number that is well formed and has no meaning. -/
  | unreadable
  deriving Inhabited

namespace Json

mutual

/-- How many arrays and objects are nested in a document, counting itself. -/
def depth : Json → Nat
  | .array items => 1 + itemsDepth items
  | .object fields => 1 + fieldsDepth fields
  | _ => 0

/-- The greatest depth of some documents. -/
def itemsDepth : List Json → Nat
  | [] => 0
  | item :: rest => max item.depth (itemsDepth rest)

/-- The greatest depth of the values of some fields. -/
def fieldsDepth : List (String × Json) → Nat
  | [] => 0
  | (_, value) :: rest => max value.depth (fieldsDepth rest)

end

/-- Whether every part of a document has a meaning, and arrays and objects are nested at most
`room` deep. -/
def isReadable : (room : Nat) → Json → Bool
  | room + 1, .array items => items.all (isReadable room)
  | room + 1, .object fields => fields.all (fun field => isReadable room field.2)
  | 0, .array _ => false
  | 0, .object _ => false
  | _, .unreadable => false
  | _, _ => true

/-- The value of the first field with a name, in an object. -/
def field? (document : Json) (name : String) : Option Json :=
  match document with
  | .object fields => (fields.find? (fun field => field.1 == name)).map Prod.snd
  | _ => none

/-- A list of texts. -/
def strings (texts : List String) : Json :=
  .array (texts.map .string)

/-- The document of a value, or `null`. -/
def ofOption {α : Type} (encode : α → Json) : Option α → Json
  | none => .null
  | some value => encode value

end Json

end CanonicalNames
