import CanonicalNames.Index.Subscribe

/-!
# Removing nodes

A node leaves together with everything below it. The subscribers of each node that leaves
are told and dropped, then the references in those nodes give up their own subscriptions,
and finally the nodes go. Package segments that are left without children go too; nobody
is subscribed to them.
-/

namespace CanonicalNames

/-- Takes package segments without children out of the outline, from a node upward, at most
`steps` of them. -/
def Outline.prune (outline : Outline) : (steps : Nat) → NodeId → Outline
  | 0, _ => outline
  | steps + 1, id =>
    match outline.node? id with
    | none => outline
    | some node =>
      if node.kind = .package ∧ node.children = [] then
        match node.parent with
        | some parent => prune ((outline.dropNode id).detach parent id) steps parent
        | none => outline
      else outline

namespace Index

/-- Tells and drops the subscribers of a node that leaves. -/
def dismiss (index : Index) (node : NodeId) : Index :=
  { index with
    outbox := index.outbox ++ index.subscriptions.notices node (.removed node)
    subscriptions := index.subscriptions.clear node }

/-- Releases every reference in a node. -/
def releaseAll (index : Index) (node : NodeId) : Index :=
  (index.outline.refsOf node).foldl release index

/-- Removes a node and everything below it; returns the nodes that left, in the order in
which their subscribers were told. -/
def remove (index : Index) (id : NodeId) : Except Error (List NodeId × Index) :=
  if id = Outline.rootId then .error (.invalidInput .rootRemoval)
  else
    match index.outline.node? id with
    | none => .error (.unknownNode id)
    | some node =>
      let leaving := index.outline.removalOrder id
      let index := leaving.foldl dismiss index
      let index := leaving.foldl releaseAll index
      let outline := leaving.foldl Outline.dropNode index.outline
      let outline :=
        match node.parent with
        | some parent => (outline.detach parent id).prune (parent + 1) parent
        | none => outline
      .ok (leaving, { index with outline })

/-- Removes the file with a source path; `none` if there is no such file. -/
def removeFile (index : Index) (path : SourcePath) : Except Error (Option (List NodeId) × Index) :=
  match index.outline.fileAt? path with
  | some id => (index.remove id).map (fun (leaving, rest) => (some leaving, rest))
  | none => .ok (none, index)

end Index

end CanonicalNames
