import CanonicalNames.Json.Number

/-!
# JSON tokens

The characters of a document form punctuation, words, numbers and strings with white space
between them. `tokens?` accepts exactly the token sequences of strict JSON: no comments, no
leading zeros, no raw control characters in strings.

A string literal may hold half of a surrogate pair. It is a well-formed token that denotes
no text; the token then carries `none`.
-/

namespace CanonicalNames.Json

/-- A token of a document. -/
inductive Token where
  | openArray
  | closeArray
  | openObject
  | closeObject
  | colon
  | comma
  /-- A value without parts. -/
  | scalar (value : Json)
  /-- A string literal with its text, if it has one. -/
  | string (text : Option String)

/-- The value of a hexadecimal digit. -/
def hexValue? (c : Char) : Option Nat :=
  if '0' ≤ c ∧ c ≤ '9' then some (c.toNat - 48)
  else if 'a' ≤ c ∧ c ≤ 'f' then some (c.toNat - 87)
  else if 'A' ≤ c ∧ c ≤ 'F' then some (c.toNat - 55)
  else none

/-- The character that a one-letter escape stands for. -/
def escaped? (letter : Char) : Option Char :=
  match letter with
  | '"' => some '"'
  | '\\' => some '\\'
  | '/' => some '/'
  | 'b' => some (Char.ofNat 8)
  | 'f' => some (Char.ofNat 12)
  | 'n' => some '\n'
  | 'r' => some '\r'
  | 't' => some '\t'
  | _ => none

/-- A part of a string literal: a character, or a sixteen-bit unit written by its number. -/
inductive Part where
  | plain (c : Char)
  | unit (value : Nat)

/-- Reads a string literal up to its closing quote: its parts, latest first, and the text
after it. -/
def scanString (parts : List Part) : List Char → Option (List Part × List Char)
  | [] => none
  | '"' :: rest => some (parts, rest)
  | '\\' :: 'u' :: a :: b :: c :: d :: rest =>
    match hexValue? a, hexValue? b, hexValue? c, hexValue? d with
    | some a, some b, some c, some d =>
      scanString (.unit (((a * 16 + b) * 16 + c) * 16 + d) :: parts) rest
    | _, _, _, _ => none
  | '\\' :: letter :: rest =>
    match escaped? letter with
    | some c => scanString (.plain c :: parts) rest
    | none => none
  | c :: rest =>
    if c.toNat < 0x20 ∨ c = '\\' then none else scanString (.plain c :: parts) rest

/-- The text of some parts given latest first, if every surrogate unit belongs to a pair.
`low` is a low surrogate that waits for the high one before it. -/
def textOfParts? (text : List Char) (low : Option Nat) : List Part → Option (List Char)
  | [] => if low.isNone then some text else none
  | .plain c :: rest => if low.isNone then textOfParts? (c :: text) none rest else none
  | .unit value :: rest =>
    match low with
    | some low =>
      if 0xD800 ≤ value ∧ value < 0xDC00 then
        textOfParts?
          (Char.ofNat (0x10000 + (value - 0xD800) * 0x400 + (low - 0xDC00)) :: text) none rest
      else none
    | none =>
      if 0xDC00 ≤ value ∧ value < 0xE000 then textOfParts? text (some value) rest
      else if 0xD800 ≤ value ∧ value < 0xDC00 then none
      else textOfParts? (Char.ofNat value :: text) none rest

/-- Splits off the leading decimal digits. -/
def spanDigits (text : List Char) : List Char × List Char :=
  (text.takeWhile Char.isDigit, text.dropWhile Char.isDigit)

/-- Reads the fraction of a number, if there is one. -/
def scanFraction (text : List Char) : Option (Option (List Char) × List Char) :=
  match text with
  | '.' :: rest =>
    match spanDigits rest with
    | ([], _) => none
    | (digits, rest) => some (some digits, rest)
  | _ => some (none, text)

/-- Reads the exponent of a number, if there is one: whether it is negative, and its
digits. -/
def scanExponent (text : List Char) : Option (Option (Bool × List Char) × List Char) :=
  match text with
  | c :: rest =>
    if c = 'e' ∨ c = 'E' then
      let (goesDown, rest) :=
        match rest with
        | '-' :: rest => (true, rest)
        | '+' :: rest => (false, rest)
        | _ => (false, rest)
      match spanDigits rest with
      | ([], _) => none
      | (digits, rest) => some (some (goesDown, digits), rest)
    else some (none, text)
  | [] => some (none, text)

/-- Reads a number: its value and the text after it. -/
def scanNumber (text : List Char) : Option (Json × List Char) :=
  let (isNegative, unsigned) :=
    match text with
    | '-' :: rest => (true, rest)
    | _ => (false, text)
  match spanDigits unsigned with
  | ([], _) => none
  | (digits, rest) =>
    if digits.head? == some '0' && digits.length != 1 then none
    else
      match scanFraction rest with
      | none => none
      | some (fraction, rest) =>
        match scanExponent rest with
        | none => none
        | some (exponent, rest) =>
          let written := text.take (text.length - rest.length)
          some (number written isNegative digits fraction exponent, rest)

/-- The blanks of JSON: space, tab, line feed and carriage return. -/
def isSpace (c : Char) : Bool :=
  c == ' ' || c == '\t' || c == '\n' || c == '\r'

/-- Reads the first token of a text that does not start with a blank. -/
def scanToken (text : List Char) : Option (Token × List Char) :=
  match text with
  | [] => none
  | '[' :: rest => some (.openArray, rest)
  | ']' :: rest => some (.closeArray, rest)
  | '\x7b' :: rest => some (.openObject, rest)
  | '\x7d' :: rest => some (.closeObject, rest)
  | ':' :: rest => some (.colon, rest)
  | ',' :: rest => some (.comma, rest)
  | '"' :: rest =>
    match scanString [] rest with
    | some (parts, rest) => some (.string ((textOfParts? [] none parts).map String.ofList), rest)
    | none => none
  | 't' :: 'r' :: 'u' :: 'e' :: rest => some (.scalar (.bool true), rest)
  | 'f' :: 'a' :: 'l' :: 's' :: 'e' :: rest => some (.scalar (.bool false), rest)
  | 'n' :: 'u' :: 'l' :: 'l' :: rest => some (.scalar .null, rest)
  | _ =>
    match scanNumber text with
    | some (value, rest) => some (.scalar value, rest)
    | none => none

/-- The tokens of a text, after some that were read already (latest first). Every token takes
a character, so that as many steps as there are characters suffice. -/
def scanTokens : (steps : Nat) → List Token → List Char → Option (List Token)
  | 0, found, text => if (text.dropWhile isSpace).isEmpty then some found.reverse else none
  | steps + 1, found, text =>
    match text.dropWhile isSpace with
    | [] => some found.reverse
    | text =>
      match scanToken text with
      | some (token, rest) => scanTokens steps (token :: found) rest
      | none => none

/-- The tokens of a text. -/
def tokens? (text : String) : Option (List Token) :=
  scanTokens text.length [] text.toList

end CanonicalNames.Json
