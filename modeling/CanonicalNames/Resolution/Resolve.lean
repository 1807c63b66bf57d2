import CanonicalNames.Resolution.Scope

/-!
# Resolving references

A reference that may begin is put in progress, searched for and settled. A search may call
for bounds and supertypes to be resolved first; each of those is in progress itself while
it is searched for, so that calls inside calls are about different references and go no
deeper than there are references in the outline. `resolveWithin` is given that depth, and
`Outline.resolve` gives it.
-/

namespace CanonicalNames

/-- The answer about a reference on which no attempt may begin. -/
def Standing.answer (standing : Standing) : Resolution :=
  match standing.status with
  | .resolved canonical _ => .resolved canonical
  | .failed => .unresolved
  | _ => .inProgress

/-- Settles a reference for which nothing was found. -/
def Pass.giveUp (pass : Pass) (ref : RefId) : Pass :=
  let settled := pass.setStanding ref (pass.standing ref).fail
  { settled with health := settled.health.countFailure }

namespace Outline

/-- The canonical name and origin that a hit gives a reference, and the node that the
reference then rests on. -/
def outcome (outline : Outline) : Hit → String × Origin × Option NodeId
  | .primitive name => (name, .primitive, none)
  | .declared node =>
    ((outline.path? node).getD "", .declared, some ((outline.fileOf? node).getD node))
  | .typeParameter param canonical watch =>
    (canonical, .typeParameter, watch <|> outline.fileOf? param)
  | .dependency canonical => (canonical, .dependency, some rootId)

/-- Settles a reference on a hit. -/
def commit (outline : Outline) (mode : Mode) (ref : RefId) (hit : Hit) (pass : Pass) :
    Resolution × Pass :=
  let (canonical, origin, rest) := outline.outcome hit
  let pass :=
    if origin = .dependency then { pass with health := pass.health.countDependency } else pass
  let pass := pass.setStanding ref ((pass.standing ref).complete canonical origin)
  let pass :=
    match mode, rest with
    | .live, some node => pass.watch outline ref node
    | _, _ => pass
  (.resolved canonical, pass)

/-- Resolves a reference, with the given resolver for bounds and supertypes. -/
def attempt (outline : Outline) (mode : Mode) (resolver : Resolver) : Resolver :=
  fun ref start pass =>
    match outline.use? ref with
    | none => (.skipped, pass)
    | some use =>
      if start.any (fun anchor => !outline.contains anchor) || use.name.isEmpty then
        (.skipped, pass)
      else
        let standing := pass.standing ref
        if standing.mayBegin mode.retriesFailed then
          let begun := pass.setStanding ref standing.start
          let probes := Scope.search outline resolver use.name (start.getD ref.owner)
          match Probe.first probes begun with
          | (some hit, pass) => outline.commit mode ref hit pass
          | (none, pass) => (.unresolved, pass.giveUp ref)
        else (standing.answer, pass)

/-- Resolves a reference with calls inside calls to a limited depth. -/
def resolveWithin (outline : Outline) (mode : Mode) : (depth : Nat) → Resolver
  | 0 => outline.attempt mode (fun _ _ pass => (.skipped, pass))
  | depth + 1 => outline.attempt mode (resolveWithin outline mode depth)

/-- Resolves a reference, searching outward from `start` or from the element that holds it. -/
def resolve (outline : Outline) (mode : Mode) : Resolver :=
  outline.resolveWithin mode outline.refs.length

/-- Resolves the return types of methods one after the other. -/
def resolveMethods (outline : Outline) (mode : Mode) :
    List NodeId → Pass → List (NodeId × Resolution) × Pass
  | [], pass => ([], pass)
  | method :: rest, pass =>
    let (resolution, pass) := outline.resolve mode (.returnType method) none pass
    let (resolutions, pass) := resolveMethods outline mode rest pass
    ((method, resolution) :: resolutions, pass)

/-- Resolves the return types of all methods at and below a node, in declaration order. -/
def resolveUnder (outline : Outline) (mode : Mode) (node : NodeId) (pass : Pass) :
    List (NodeId × Resolution) × Pass :=
  outline.resolveMethods mode (outline.methodsUnder node) pass

end Outline

namespace Index

/-- A pass over the index with counters to advance. -/
def pass (index : Index) (health : Health) : Pass :=
  { standings := index.standings, subscriptions := index.subscriptions, health }

/-- The index after a pass. -/
def afterPass (index : Index) (pass : Pass) : Index :=
  { index with standings := pass.standings, subscriptions := pass.subscriptions }

/-- Resolves a reference of the index. -/
def resolve (index : Index) (mode : Mode) (ref : RefId) (start : Option NodeId)
    (health : Health) : Resolution × Index × Health :=
  let (resolution, pass) := index.outline.resolve mode ref start (index.pass health)
  (resolution, index.afterPass pass, pass.health)

/-- Resolves references of the index one after the other. -/
def resolveAll (index : Index) (mode : Mode) :
    List RefId → Health → List (RefId × Resolution) × Index × Health
  | [], health => ([], index, health)
  | ref :: rest, health =>
    let (resolution, index, health) := index.resolve mode ref none health
    let (resolutions, index, health) := resolveAll index mode rest health
    ((ref, resolution) :: resolutions, index, health)

/-- Resolves the return types of all methods at and below a node. -/
def resolveUnder (index : Index) (mode : Mode) (node : NodeId) (health : Health) :
    List (NodeId × Resolution) × Index × Health :=
  let (resolutions, pass) := index.outline.resolveUnder mode node (index.pass health)
  (resolutions, index.afterPass pass, pass.health)

end Index

end CanonicalNames
