import CanonicalNames.Error

/-!
# Groupings

A grouping sorts canonical type names into named groups. A group lists names, and name
prefixes such as `java.util.`; names that no group takes fall into one of three fallback
groups. Group names are not empty, and no two groups have the same name.
-/

namespace CanonicalNames

open Json (Decoder)

/-- A named group of canonical names. -/
structure Group where
  name : String
  /-- Names that belong to the group. -/
  types : List String := []
  /-- Prefixes of names that belong to the group. -/
  prefixes : List String := []
  deriving DecidableEq, Repr

/-- Groups and the names of the fallback groups. -/
structure Grouping where
  groups : List Group := []
  primitiveGroup : String := "primitive"
  arrayGroup : String := "array"
  unknownGroup : String := "unknown"
  deriving DecidableEq, Repr

namespace Group

/-- The document of a group. -/
def toJson (group : Group) : Json :=
  .object [
    ("name", .string group.name),
    ("types", Json.strings group.types),
    ("prefixes", Json.strings group.prefixes)]

/-- Reads a group. -/
def decoder : Decoder Group := fun room document => do
  let fields ← Json.fields ["name", "types", "prefixes"] room document
  let name ← fields.required "name" Json.text
  let types ← fields.withDefault "types" [] (Json.list Json.text)
  let prefixes ← fields.withDefault "prefixes" [] (Json.list Json.text)
  return { name, types, prefixes }

end Group

namespace Grouping

/-- The document of a grouping. -/
def toJson (grouping : Grouping) : Json :=
  .object [
    ("groups", .array (grouping.groups.map Group.toJson)),
    ("primitive_group", .string grouping.primitiveGroup),
    ("array_group", .string grouping.arrayGroup),
    ("unknown_group", .string grouping.unknownGroup)]

/-- Reads a grouping. -/
def decoder : Decoder Grouping := fun room document => do
  let fields ←
    Json.fields ["groups", "primitive_group", "array_group", "unknown_group"] room document
  let groups ← fields.withDefault "groups" [] (Json.list Group.decoder)
  let primitiveGroup ← fields.withDefault "primitive_group" "primitive" Json.text
  let arrayGroup ← fields.withDefault "array_group" "array" Json.text
  let unknownGroup ← fields.withDefault "unknown_group" "unknown" Json.text
  return { groups, primitiveGroup, arrayGroup, unknownGroup }

/-- The first fault of some groups, after groups with the given names. -/
def groupFault? (seen : List String) : List Group → Option ConfigFault
  | [] => none
  | group :: rest =>
    if group.name.isEmpty then some .unnamedGroup
    else if seen.contains group.name then some (.repeatedGroup group.name)
    else groupFault? (group.name :: seen) rest

/-- The first fault of a grouping. -/
def fault? (grouping : Grouping) : Option ConfigFault :=
  if [grouping.primitiveGroup, grouping.arrayGroup, grouping.unknownGroup].any String.isEmpty then
    some .emptyFallback
  else groupFault? [] grouping.groups

/-- The grouping, if it has no fault. -/
def validate (grouping : Grouping) : Except Error Grouping :=
  match grouping.fault? with
  | some fault => .error (.config fault)
  | none => .ok grouping

/-- Reads a grouping without faults from the text of a document. -/
def ofText (written : String) : Except Error Grouping :=
  match Json.decodeText decoder written with
  | .ok grouping => grouping.validate
  | .error fault => .error (.config (.document fault))

end Grouping

end CanonicalNames
