/-!
# Resolution health

Two counters that a resolution pass advances: references accepted through an import of a
type outside the outline, and attempts that found nothing.
-/

namespace CanonicalNames

/-- Counters of a resolution pass. -/
structure Health where
  dependencyImports : Nat := 0
  failures : Nat := 0
  deriving DecidableEq, Repr

namespace Health

/-- One more reference was taken from an import outside the outline. -/
def countDependency (health : Health) : Health :=
  { health with dependencyImports := health.dependencyImports + 1 }

/-- One more attempt found nothing. -/
def countFailure (health : Health) : Health :=
  { health with failures := health.failures + 1 }

end Health

end CanonicalNames
