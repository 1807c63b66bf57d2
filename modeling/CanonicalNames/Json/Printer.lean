import CanonicalNames.Json.Basic
import CanonicalNames.Text.Quoted

/-!
# Writing JSON

`compact` writes a document on one line without blanks. `pretty` puts every item and every
field on a line of its own, two blanks deeper than the bracket that opens it; an empty
array or object stays on one line. Strings escape the quote, the backslash and the control
characters below the blank, and nothing else.
-/

namespace CanonicalNames.Json

/-- How a character is written inside a string. -/
def escapeChar (c : Char) : List Char :=
  if c = '"' then ['\\', '"']
  else if c = '\\' then ['\\', '\\']
  else if 0x20 ≤ c.toNat then [c]
  else if c = '\n' then ['\\', 'n']
  else if c = '\r' then ['\\', 'r']
  else if c = '\t' then ['\\', 't']
  else if c.toNat = 8 then ['\\', 'b']
  else if c.toNat = 12 then ['\\', 'f']
  else ['\\', 'u', '0', '0', Text.hexDigit (c.toNat / 16), Text.hexDigit (c.toNat % 16)]

/-- A string literal. -/
def literal (text : String) : String :=
  String.ofList ('"' :: text.toList.flatMap escapeChar ++ ['"'])

/-- How a document without parts is written. -/
def scalar : Json → String
  | .bool true => "true"
  | .bool false => "false"
  | .natural value => value.repr
  | .decimal text => text
  | .string text => literal text
  | _ => "null"

mutual

/-- Appends a document without blanks. -/
def writeCompact (out : String) : Json → String
  | .array items => writeItems (out ++ "[") true items ++ "]"
  | .object fields => writeFields (out ++ "\x7b") true fields ++ "\x7d"
  | document => out ++ scalar document

/-- Appends the items of an array. -/
def writeItems (out : String) (isFirst : Bool) : List Json → String
  | [] => out
  | item :: rest =>
    writeItems (writeCompact (if isFirst then out else out ++ ",") item) false rest

/-- Appends the fields of an object. -/
def writeFields (out : String) (isFirst : Bool) : List (String × Json) → String
  | [] => out
  | (name, value) :: rest =>
    let out := if isFirst then out else out ++ ","
    writeFields (writeCompact (out ++ literal name ++ ":") value) false rest

end

/-- The document on one line. -/
def compact (document : Json) : String :=
  writeCompact "" document

/-- The start of a line that is `level` brackets deep. -/
def newline (level : Nat) : String :=
  String.ofList ('\n' :: List.replicate (2 * level) ' ')

mutual

/-- Appends a document that stands `level` brackets deep. -/
def writePretty (out : String) (level : Nat) : Json → String
  | .array [] => out ++ "[]"
  | .array (item :: rest) =>
    writePrettyItems (out ++ "[") (level + 1) true (item :: rest) ++ newline level ++ "]"
  | .object [] => out ++ "\x7b\x7d"
  | .object (field :: rest) =>
    writePrettyFields (out ++ "\x7b") (level + 1) true (field :: rest) ++ newline level ++ "\x7d"
  | document => out ++ scalar document

/-- Appends items, each on its own line. -/
def writePrettyItems (out : String) (level : Nat) (isFirst : Bool) : List Json → String
  | [] => out
  | item :: rest =>
    let out := if isFirst then out else out ++ ","
    writePrettyItems (writePretty (out ++ newline level) level item) level false rest

/-- Appends fields, each on its own line. -/
def writePrettyFields (out : String) (level : Nat) (isFirst : Bool) :
    List (String × Json) → String
  | [] => out
  | (name, value) :: rest =>
    let out := if isFirst then out else out ++ ","
    writePrettyFields (writePretty (out ++ newline level ++ literal name ++ ": ") level value)
      level false rest

end

/-- The document over several lines, indented by two blanks. -/
def pretty (document : Json) : String :=
  writePretty "" 0 document

end CanonicalNames.Json
