import CanonicalNames.Error
import CanonicalNames.Outline.Lookup
import CanonicalNames.Standing
import CanonicalNames.Subscription

/-!
# The index

The index is the outline together with what is known about its references, who is
subscribed to which node, and the notifications that nobody has taken yet.

An `Edit` may stop with an error in the middle of its work; what it has done by then stays
done.
-/

namespace CanonicalNames

/-- What is known about references. A reference that is not listed is unresolved and holds
no subscription. -/
abbrev Standings := Table RefId Standing

/-- The standing of a reference. -/
def Standings.of (standings : Standings) (ref : RefId) : Standing :=
  (standings.find? ref).getD {}

/-- The outline, its references and its subscribers. -/
structure Index where
  outline : Outline := .empty
  standings : Standings := {}
  subscriptions : Subscriptions := {}
  /-- Notifications that were not taken yet, oldest first. -/
  outbox : List Notification := []
  /-- The number of listeners handed out so far. -/
  listeners : Nat := 0

namespace Index

/-- An operation on an index that keeps the state it reached when it fails. -/
abbrev Edit (α : Type) := EStateM Error Index α

/-- The standing of a reference. -/
def standing (index : Index) (ref : RefId) : Standing :=
  Standings.of index.standings ref

/-- The standing of a reference that exists. -/
def reference? (index : Index) (ref : RefId) : Option (TypeUse × Standing) :=
  (index.outline.use? ref).map (fun use => (use, index.standing ref))

/-- Sets the standing of a reference. -/
def setStanding (index : Index) (ref : RefId) (standing : Standing) : Index :=
  { index with standings := index.standings.insert ref standing }

/-- The index without notifications, and the notifications, oldest first. -/
def takeNotifications (index : Index) : List Notification × Index :=
  (index.outbox, { index with outbox := [] })

/-- A new listener. -/
def newListener (index : Index) : Nat × Index :=
  (index.listeners, { index with listeners := index.listeners + 1 })

end Index

end CanonicalNames
