import CanonicalNames.Health
import CanonicalNames.Index.Subscribe

/-!
# Resolution passes

A pass over references reads the outline and changes three things only: the standings of
references, the registrations of subscribers, and the health counters. `Pass` holds these
three, and everything that a resolution does is a function of the outline from passes to
passes.
-/

namespace CanonicalNames

/-- Whether outcomes are kept up to date afterwards. -/
inductive Mode where
  /-- References subscribe to what they rest on, and a failed one is tried again. -/
  | live
  /-- One pass over an index that does not change: no subscriptions, no second attempts. -/
  | batch
  deriving DecidableEq, Repr

/-- A failed reference is tried again. -/
def Mode.retriesFailed (mode : Mode) : Bool :=
  mode == .live

/-- The answer to a request to resolve a reference. -/
inductive Resolution where
  /-- The canonical name, found now or before. -/
  | resolved (canonical : String)
  /-- No scope knows the name. -/
  | unresolved
  /-- The reference is being resolved by a caller. -/
  | inProgress
  /-- There is no such reference or no such place to start from, or the name is empty. -/
  | skipped
  deriving DecidableEq, Repr

/-- The canonical name in an answer. -/
def Resolution.canonical? : Resolution → Option String
  | .resolved canonical => some canonical
  | _ => none

/-- What a scope knows about a name. -/
inductive Hit where
  /-- A primitive keyword, which names itself. -/
  | primitive (name : String)
  /-- A class of the outline, whose path is the canonical name. -/
  | declared (node : NodeId)
  /-- A type parameter, which stands for the canonical name of its bound; `watch` is the node
  that the bound is subscribed to. -/
  | typeParameter (param : NodeId) (canonical : String) (watch : Option NodeId)
  /-- A single import of a type outside the outline. -/
  | dependency (canonical : String)
  deriving DecidableEq, Repr

/-- What a resolution changes. -/
structure Pass where
  standings : Standings := {}
  subscriptions : Subscriptions := {}
  health : Health := {}

namespace Pass

/-- The standing of a reference. -/
def standing (pass : Pass) (ref : RefId) : Standing :=
  Standings.of pass.standings ref

/-- Sets the standing of a reference. -/
def setStanding (pass : Pass) (ref : RefId) (standing : Standing) : Pass :=
  { pass with standings := pass.standings.insert ref standing }

/-- A reference has the standing that was set. -/
@[simp] theorem standing_set_standing_self (pass : Pass) (ref : RefId) (standing : Standing) :
    (pass.setStanding ref standing).standing ref = standing := by
  simp [Pass.standing, setStanding, Standings.of, Table.find?_insert_of_beq]

/-- Setting a standing leaves those of other references. -/
theorem standing_set_standing_of_ne (pass : Pass) {ref other : RefId} (standing : Standing)
    (h : ref ≠ other) : (pass.setStanding ref standing).standing other = pass.standing other := by
  have hb : (ref == other) = false := by simpa using h
  simp [Pass.standing, setStanding, Standings.of, Table.find?_insert_of_not_beq _ _ hb]

/-- Moves the subscription of a reference to a node, if the node takes subscribers. -/
def watch (outline : Outline) (pass : Pass) (ref : RefId) (node : NodeId) : Pass :=
  match outline.checkSubscribable node with
  | .ok _ =>
    let (standings, subscriptions) := moveSubscription pass.standings pass.subscriptions ref node
    { pass with standings, subscriptions }
  | .error _ => pass

end Pass

/-- A request to resolve a reference, searching outward from a node or from the element that
holds the reference. -/
abbrev Resolver := (ref : RefId) → (start : Option NodeId) → Pass → Resolution × Pass

/-- A step of a search: it may find something, and may resolve other references on the
way. -/
abbrev Probe := Pass → Option Hit × Pass

namespace Probe

/-- A step that resolves nothing else. -/
def ofHit? (hit : Option Hit) : Probe := fun pass =>
  (hit, pass)

/-- Takes steps in order until one finds something. -/
def first : List Probe → Probe
  | [] => fun pass => (none, pass)
  | probe :: rest => fun pass =>
    match probe pass with
    | (some hit, pass) => (some hit, pass)
    | (none, pass) => first rest pass

end Probe

end CanonicalNames
