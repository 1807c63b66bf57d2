import CanonicalNames.Element

/-!
# The standing of a reference

A type use is resolved at most once at a time, and remembers the outcome. It is in progress
from before the first lookup until an outcome is known, which also cuts cycles; a failed
attempt may be made again where the caller allows it. While it is resolved it rests on a
node of the outline, its subscription.
-/

namespace CanonicalNames

/-- The kind of declaration that a resolved reference ended on. -/
inductive Origin where
  | primitive
  /-- A class in the outline. -/
  | declared
  /-- A type parameter, which stands for its bound. -/
  | typeParameter
  /-- A single import of a type that is not in the outline. -/
  | dependency
  deriving DecidableEq, Repr

/-- How far the resolution of a reference has come. -/
inductive Status where
  | unresolved
  | inProgress
  | resolved (canonical : String) (origin : Origin)
  | failed
  deriving DecidableEq, Repr

/-- What is remembered about a reference. -/
structure Standing where
  status : Status := .unresolved
  /-- The node on which the reference is registered. -/
  subscription : Option NodeId := none
  deriving DecidableEq, Repr

namespace Standing

/-- The canonical name of a resolved reference. -/
def canonical? (standing : Standing) : Option String :=
  match standing.status with
  | .resolved canonical _ => some canonical
  | _ => none

/-- The origin of a resolved reference. -/
def origin? (standing : Standing) : Option Origin :=
  match standing.status with
  | .resolved _ origin => some origin
  | _ => none

/-- Whether there is a canonical name. -/
def isResolved (standing : Standing) : Bool :=
  standing.canonical?.isSome

/-- Whether an attempt may start now. -/
def mayBegin (standing : Standing) (retryFailed : Bool) : Bool :=
  match standing.status with
  | .unresolved => true
  | .failed => retryFailed
  | .inProgress => false
  | .resolved _ _ => false

/-- An attempt starts. -/
def start (standing : Standing) : Standing :=
  { standing with status := .inProgress }

/-- An attempt has found a canonical name. -/
def complete (standing : Standing) (canonical : String) (origin : Origin) : Standing :=
  { standing with status := .resolved canonical origin }

/-- An attempt has found nothing; the subscription stays. -/
def fail (standing : Standing) : Standing :=
  { standing with status := .failed }

/-- The name to show for a use: the canonical one if it is known, with brackets for an
array. -/
def display (standing : Standing) (use : TypeUse) : String :=
  TypeUse.withBrackets use.isArray (standing.canonical?.getD use.name)

end Standing

end CanonicalNames
