import CanonicalNames.Grouping.Basic
import CanonicalNames.Resolution.Scope

/-!
# Classifying canonical names

A name belongs to the first group that lists it; else to the group with the longest prefix
of it, the earlier group on equal lengths; else to the fallback group for arrays, for
primitive types or for everything else. A reference without a canonical name belongs to
the group for everything else.

The classifier looks names up in an index: a table of listed names, and all prefixes,
longest first.
-/

namespace CanonicalNames

/-- A grouping with its index. -/
structure Classifier where
  grouping : Grouping
  /-- The group of every listed name. -/
  exact : Table String String
  /-- Prefixes with their groups, longest first. -/
  prefixes : List (String × String)

namespace Classifier

/-- Adds names with a group, unless they have one already. -/
def listNames (group : String) (exact : Table String String) (names : List String) :
    Table String String :=
  names.foldl (fun exact name =>
    if exact.contains name then exact else exact.insert name group) exact

/-- The classifier of a grouping. -/
def ofGrouping (grouping : Grouping) : Classifier where
  grouping
  exact := grouping.groups.foldl (fun exact group => listNames group.name exact group.types) {}
  prefixes :=
    (grouping.groups.flatMap (fun group => group.prefixes.map (fun start => (start, group.name))))
      |>.mergeSort (fun left right => right.1.utf8ByteSize ≤ left.1.utf8ByteSize)

/-- Whether a name starts with a text. -/
def startsWith (name start : String) : Bool :=
  start.toList.isPrefixOf name.toList

/-- The group of a name that no group takes. -/
def fallback (grouping : Grouping) (canonical : String) (isArray : Bool) : String :=
  if isArray then grouping.arrayGroup
  else if isPrimitive canonical then grouping.primitiveGroup
  else grouping.unknownGroup

/-- The group of a reference by its canonical name, if it has one. -/
def classify (classifier : Classifier) (canonical : Option String) (isArray : Bool) : String :=
  match canonical with
  | none => classifier.grouping.unknownGroup
  | some name =>
    match classifier.exact.find? name with
    | some group => group
    | none =>
      match classifier.prefixes.find? (fun entry => startsWith name entry.1) with
      | some entry => entry.2
      | none => fallback classifier.grouping name isArray

/-- The names of all groups, fallback groups last, each once. -/
def groupNames (classifier : Classifier) : List String :=
  let grouping := classifier.grouping
  [grouping.arrayGroup, grouping.primitiveGroup, grouping.unknownGroup].foldl appendNew
    (grouping.groups.map Group.name)

end Classifier

end CanonicalNames
