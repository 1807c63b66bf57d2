import CanonicalNames.Index.Basic

/-!
# Subscribing

Listeners and references subscribe to nodes that are present and are not package segments;
anyone may subscribe to the root. A reference holds one subscription at a time, which its
standing names. Invalidating a reference forgets its outcome and drops its subscription.
-/

namespace CanonicalNames

/-- Whether a node takes subscribers, and why not. -/
def Outline.checkSubscribable (outline : Outline) (node : NodeId) : Except Error Unit :=
  match outline.kind? node with
  | none => .error (.unknownNode node)
  | some kind => if kind.isSubscribable then .ok () else .error (.notSubscribable node)

/-- Nodes that take subscribers are present, and are not packages. -/
theorem Outline.check_subscribable_ok {outline : Outline} {node : NodeId} {value : Unit}
    (h : outline.checkSubscribable node = .ok value) :
    ∃ kind, outline.kind? node = some kind ∧ kind ≠ .package := by
  unfold checkSubscribable at h
  split at h
  · cases h
  · next kind hkind =>
      split at h
      · next htakes => exact ⟨kind, hkind, by simpa [Kind.isSubscribable] using htakes⟩
      · cases h

/-- The registrations and standings after a reference has moved its subscription to a node. -/
def moveSubscription (standings : Standings) (subscriptions : Subscriptions) (ref : RefId)
    (node : NodeId) : Standings × Subscriptions :=
  let standing := Standings.of standings ref
  let added := subscriptions.add node (.reference ref)
  let kept :=
    if standing.subscription = some node then added
    else added.dropFrom? standing.subscription (.reference ref)
  (standings.insert ref { standing with subscription := some node }, kept)

namespace Index

/-- Registers a subscriber on a node. -/
def subscribe (index : Index) (node : NodeId) (subscriber : Subscriber) : Except Error Index := do
  index.outline.checkSubscribable node
  return { index with subscriptions := index.subscriptions.add node subscriber }

/-- Registers a subscriber on the root, which hears of everything that is added. -/
def subscribeRoot (index : Index) (subscriber : Subscriber) : Index :=
  { index with subscriptions := index.subscriptions.add Outline.rootId subscriber }

/-- Takes a subscriber off a node; says whether it was registered there. -/
def unsubscribe (index : Index) (node : NodeId) (subscriber : Subscriber) : Bool × Index :=
  (index.subscriptions.holds node subscriber,
    { index with subscriptions := index.subscriptions.drop node subscriber })

/-- Takes every subscriber off a node; returns those that were registered. -/
def clear (index : Index) (node : NodeId) : List Subscriber × Index :=
  (index.subscriptions.on node,
    { index with subscriptions := index.subscriptions.clear node })

/-- Subscribes a reference to a node in place of the one it was subscribed to. -/
def subscribeReference (index : Index) (ref : RefId) (node : NodeId) : Except Error Index :=
  match index.outline.use? ref with
  | none => .error (.unknownNode ref.owner)
  | some _ => do
    index.outline.checkSubscribable node
    let (standings, subscriptions) :=
      moveSubscription index.standings index.subscriptions ref node
    return { index with standings, subscriptions }

/-- Forgets the outcome of a reference and drops its subscription. -/
def release (index : Index) (ref : RefId) : Index :=
  let held := (index.standing ref).subscription
  { index with
    standings := index.standings.erase ref
    subscriptions := index.subscriptions.dropFrom? held (.reference ref) }

/-- Makes a reference unresolved again; says whether the reference exists. -/
def invalidate (index : Index) (ref : RefId) : Bool × Index :=
  match index.outline.use? ref with
  | some _ => (true, index.release ref)
  | none => (false, index)

/-- Starts an attempt on an existing reference; says whether it may start. -/
def begin? (index : Index) (ref : RefId) (retryFailed : Bool) : Option (Bool × Index) :=
  (index.outline.use? ref).map (fun _ =>
    let standing := index.standing ref
    if standing.mayBegin retryFailed then (true, index.setStanding ref standing.start)
    else (false, index))

/-- Changes the standing of an existing reference. -/
def settle? (index : Index) (ref : RefId) (outcome : Standing → Standing) : Option Index :=
  (index.outline.use? ref).map (fun _ =>
    index.setStanding ref (outcome (index.standing ref)))

end Index

end CanonicalNames
