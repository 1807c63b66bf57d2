import CanonicalNames.Workspace.Basic

/-!
# Refreshing a workspace

A refresh takes the notifications of the index and makes every reference that they name
unresolved again; the files of those references await resolution like the files that were
edited. If files were indexed since the last refresh, so do the files with a failed return
type. Then the return types of all these files are resolved, and the open ones among the
files publish their diagnostics.

A refresh answers with the files whose published diagnostics it changed, those withdrawn
before it included, in the order of their paths.
-/

namespace CanonicalNames

namespace Outline

/-- The path of the file that a node belongs to. -/
def owningPath? (outline : Outline) (id : NodeId) : Option SourcePath :=
  match (outline.fileOf? id).bind outline.element? with
  | some (.file path _ _) => some path
  | _ => none

end Outline

namespace Index

/-- Makes the references that notifications name unresolved, and returns the paths of their
files after those already found. -/
def invalidateNotified (stale : List SourcePath) :
    List Notification → Index → List SourcePath × Index
  | [], index => (stale, index)
  | notification :: rest, index =>
    match notification.subscriber with
    | .listener _ => invalidateNotified stale rest index
    | .reference ref =>
      match index.invalidate ref with
      | (false, index) => invalidateNotified stale rest index
      | (true, index) =>
        let stale :=
          match index.outline.owningPath? ref.owner with
          | some path => appendNew stale path
          | none => stale
        invalidateNotified stale rest index

/-- Whether the last attempt on some return type in a file failed. -/
def hasFailure (index : Index) (file : NodeId) : Bool :=
  (index.outline.methodsUnder file).any (fun method =>
    match index.reference? (.returnType method) with
    | some (_, standing) => standing.status == .failed
    | none => false)

/-- The files with a failed return type, in the order of their paths. -/
def filesWithFailures (index : Index) : List SourcePath :=
  ((index.outline.files.entries.filter (fun entry => index.hasFailure entry.2)).map
    Prod.fst).mergeSort SourcePath.ble

end Index

namespace Workspace

/-- What is to be said about a method of a file. -/
def diagnosticOf? (settings : Settings) (index : Index) (path : SourcePath) (method : NodeId) :
    Option Diagnostic :=
  match index.reference? (.returnType method), index.outline.path? method with
  | some (use, standing), some methodPath =>
    match standing.status with
    | .resolved canonical .dependency =>
      if settings.reportDependencyImports then
        some (.dependency path methodPath use.name canonical)
      else none
    | .resolved _ _ => none
    | _ => some (.unresolved path methodPath use.name)
  | _, _ => none

/-- The diagnostics of a file, in declaration order of its methods. -/
def currentDiagnostics (workspace : Workspace) (path : SourcePath) : List Diagnostic :=
  match workspace.index.outline.fileAt? path with
  | some file =>
    (workspace.index.outline.methodsUnder file).filterMap
      (diagnosticOf? workspace.settings workspace.index path)
  | none => []

/-- Adds the files that the notifications of the index make stale to those that await
resolution. -/
def takeStale (workspace : Workspace) : Workspace :=
  let (notifications, index) := workspace.index.takeNotifications
  let (stale, index) := Index.invalidateNotified [] notifications index
  { workspace with index, pending := stale.foldl appendNew workspace.pending }

/-- Adds the files with a failed return type to those that await resolution, if files were
indexed since the last refresh. -/
def takeFailures (workspace : Workspace) : Workspace :=
  if workspace.hasGrown then
    { workspace with
      hasGrown := false
      pending := workspace.index.filesWithFailures.foldl appendNew workspace.pending }
  else workspace

/-- Resolves the return types of a file that is indexed. -/
def resolveFile (workspace : Workspace) (path : SourcePath) : Workspace :=
  match workspace.index.outline.fileAt? path with
  | some file =>
    let (_, index, health) := workspace.index.resolveUnder .live file workspace.health
    { workspace with index, health }
  | none => workspace

/-- Publishes the diagnostics of an open file; returns whether they changed. A first
publication counts as a change. -/
def publish (workspace : Workspace) (path : SourcePath) : Bool × Workspace :=
  if workspace.isOpen path then
    let fresh := workspace.currentDiagnostics path
    (workspace.published.find? path != some fresh,
      { workspace with published := workspace.published.insert path fresh })
  else (false, workspace)

/-- Publishes the diagnostics of files; returns those whose diagnostics changed. -/
def publishAll : List SourcePath → Workspace → List SourcePath × Workspace
  | [], workspace => ([], workspace)
  | path :: rest, workspace =>
    let (isChanged, workspace) := workspace.publish path
    let (changed, workspace) := publishAll rest workspace
    (if isChanged then path :: changed else changed, workspace)

/-- Brings resolution and diagnostics up to date; returns the files whose published
diagnostics changed. -/
def refresh (workspace : Workspace) : List SourcePath × Workspace :=
  let workspace := workspace.takeStale.takeFailures
  let pending := workspace.pending
  let withdrawn := workspace.withdrawn
  let workspace := pending.foldl resolveFile { workspace with pending := [], withdrawn := [] }
  let (changed, workspace) := publishAll pending workspace
  (SourcePath.sorted (withdrawn ++ changed), workspace)

end Workspace

end CanonicalNames
