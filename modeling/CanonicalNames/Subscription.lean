import CanonicalNames.Element

/-!
# Subscriptions and notifications

A subscriber registers on a node to hear what is added below it and when it leaves the
outline. Registrations are kept as one list in the order in which they were made; a
subscriber stands on a node at most once.
-/

namespace CanonicalNames

/-- Who is told about a change. -/
inductive Subscriber where
  /-- A reference whose canonical name may be out of date. -/
  | reference (ref : RefId)
  /-- An observer from outside, by number. -/
  | listener (number : Nat)
  deriving DecidableEq, Repr

/-- A change of the outline. -/
inductive Event where
  /-- A node was attached somewhere below `scope`, the node subscribed to. -/
  | added (node scope : NodeId)
  /-- The node subscribed to has left the outline. -/
  | removed (node : NodeId)
  deriving DecidableEq, Repr

/-- An event for one subscriber. -/
structure Notification where
  subscriber : Subscriber
  event : Event
  deriving DecidableEq, Repr

/-- All registrations, oldest first. -/
structure Subscriptions where
  entries : List (NodeId × Subscriber) := []
  deriving DecidableEq, Repr

namespace Subscriptions

/-- Whether a subscriber is registered on a node. -/
def holds (subscriptions : Subscriptions) (node : NodeId) (subscriber : Subscriber) : Bool :=
  subscriptions.entries.contains (node, subscriber)

/-- The subscribers of a node, in order of registration. -/
def on (subscriptions : Subscriptions) (node : NodeId) : List Subscriber :=
  (subscriptions.entries.filter (fun entry => entry.1 == node)).map Prod.snd

/-- Registers a subscriber on a node, unless it is registered there already. -/
def add (subscriptions : Subscriptions) (node : NodeId) (subscriber : Subscriber) :
    Subscriptions :=
  if subscriptions.holds node subscriber then subscriptions
  else ⟨subscriptions.entries ++ [(node, subscriber)]⟩

/-- Takes a subscriber off a node. -/
def drop (subscriptions : Subscriptions) (node : NodeId) (subscriber : Subscriber) :
    Subscriptions :=
  ⟨subscriptions.entries.filter (fun entry => entry != (node, subscriber))⟩

/-- Takes a subscriber off the node it names, if any. -/
def dropFrom? (subscriptions : Subscriptions) (node : Option NodeId) (subscriber : Subscriber) :
    Subscriptions :=
  match node with
  | some node => subscriptions.drop node subscriber
  | none => subscriptions

/-- Takes every subscriber off a node. -/
def clear (subscriptions : Subscriptions) (node : NodeId) : Subscriptions :=
  ⟨subscriptions.entries.filter (fun entry => entry.1 != node)⟩

/-- The number of registrations. -/
def count (subscriptions : Subscriptions) : Nat :=
  subscriptions.entries.length

/-- An event for every subscriber of a node, in order of registration. -/
def notices (subscriptions : Subscriptions) (node : NodeId) (event : Event) :
    List Notification :=
  (subscriptions.on node).map (fun subscriber => { subscriber, event })

/-! ## Who is registered after an operation -/

/-- A registration is held exactly when it is listed. -/
theorem holds_iff_mem {subscriptions : Subscriptions} {node : NodeId} {subscriber : Subscriber} :
    subscriptions.holds node subscriber = true ↔ (node, subscriber) ∈ subscriptions.entries := by
  simp [holds]

/-- Adding registers the subscriber and keeps every other registration. -/
theorem holds_add_iff {subscriptions : Subscriptions} {node other : NodeId}
    {subscriber another : Subscriber} :
    (subscriptions.add node subscriber).holds other another = true ↔
      subscriptions.holds other another = true ∨ (other = node ∧ another = subscriber) := by
  simp only [add]
  split
  · next h =>
      constructor
      · exact Or.inl
      · rintro (h' | ⟨rfl, rfl⟩)
        · exact h'
        · exact h
  · simp [holds]

/-- Dropping takes away one registration and keeps every other. -/
theorem holds_drop_iff {subscriptions : Subscriptions} {node other : NodeId}
    {subscriber another : Subscriber} :
    (subscriptions.drop node subscriber).holds other another = true ↔
      subscriptions.holds other another = true ∧ ¬(other = node ∧ another = subscriber) := by
  simp only [holds_iff_mem, drop, List.mem_filter, bne_iff_ne, ne_eq, Prod.mk.injEq]

/-- Clearing a node takes away its registrations and keeps those on other nodes. -/
theorem holds_clear_iff {subscriptions : Subscriptions} {node other : NodeId}
    {subscriber : Subscriber} :
    (subscriptions.clear node).holds other subscriber = true ↔
      subscriptions.holds other subscriber = true ∧ other ≠ node := by
  simp [holds, clear]

end Subscriptions

end CanonicalNames
