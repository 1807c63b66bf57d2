import CanonicalNames.Index.Insert
import CanonicalNames.Index.Remove
import CanonicalNames.Resolution.Resolve
import CanonicalNames.Workspace.Diagnostic

/-!
# The workspace

A workspace follows an editor. Every edit replaces the whole subtree of a file at once;
references are resolved later, when the workspace is refreshed. Diagnostics are published
for open files only.

Files are known by their path under any spelling; the spelling that came first is kept.
-/

namespace CanonicalNames

open Json (Decoder)

/-- What a workspace publishes. -/
structure Settings where
  /-- Also publish an information for every return type that was taken from an import outside
  the outline. -/
  reportDependencyImports : Bool := false
  deriving DecidableEq, Repr

namespace Settings

/-- The document of settings. -/
def toJson (settings : Settings) : Json :=
  .object [("report_dependency_imports", .bool settings.reportDependencyImports)]

/-- Reads settings. -/
def decoder : Decoder Settings := fun room document => do
  let fields ← Json.fields ["report_dependency_imports"] room document
  let reportDependencyImports ← fields.withDefault "report_dependency_imports" false Json.flag
  return { reportDependencyImports }

/-- Reads settings from the text of a document. -/
def ofText (written : String) : Except Error Settings :=
  match Json.decodeText decoder written with
  | .ok settings => .ok settings
  | .error fault => .error (.config (.document fault))

end Settings

/-- An index with the sources it was made from and the diagnostics published for them. -/
structure Workspace where
  settings : Settings := {}
  index : Index := {}
  health : Health := {}
  /-- The declarations last indexed for each file. -/
  sources : Table SourcePath FileDecl := {}
  /-- The files that publish diagnostics. -/
  opened : List SourcePath := []
  published : Table SourcePath (List Diagnostic) := {}
  /-- The files to resolve on the next refresh. -/
  pending : List SourcePath := []
  /-- The files whose diagnostics were withdrawn since the last refresh. -/
  withdrawn : List SourcePath := []
  /-- Whether files were indexed since the last refresh. -/
  hasGrown : Bool := false

namespace Workspace

/-- An operation on a workspace that keeps the state it reached when it fails. -/
abbrev Edit (α : Type) := EStateM Error Workspace α

/-- Whether a file publishes diagnostics. -/
def isOpen (workspace : Workspace) (path : SourcePath) : Bool :=
  workspace.opened.contains path

/-- The declarations last indexed for a file. -/
def source? (workspace : Workspace) (path : SourcePath) : Option FileDecl :=
  workspace.sources.find? path

/-- The diagnostics published for a file. -/
def diagnostics (workspace : Workspace) (path : SourcePath) : List Diagnostic :=
  (workspace.published.find? path).getD []

/-- Withdraws the diagnostics of a file. -/
def withdraw (workspace : Workspace) (path : SourcePath) : Workspace :=
  let withdrawn :=
    if (workspace.diagnostics path).isEmpty then workspace.withdrawn
    else appendNew workspace.withdrawn path
  { workspace with published := workspace.published.erase path, withdrawn }

/-- Takes a file out of the index. -/
def removeFile (path : SourcePath) : Edit Bool := fun workspace =>
  match workspace.index.removeFile path with
  | .ok (leaving, index) => .ok leaving.isSome { workspace with index }
  | .error error => .error error workspace

/-- Inserts a file into the index. -/
def insertFile (file : FileDecl) : Edit NodeId := fun workspace =>
  match Index.insertFile file workspace.index with
  | .ok id index => .ok id { workspace with index }
  | .error error index => .error error { workspace with index }

/-- Indexes a file in place of what was indexed under its path. -/
def replace (file : FileDecl) : Edit NodeId := do
  let _ ← removeFile file.path
  let id ← insertFile file
  modify (fun workspace =>
    { workspace with
      sources := workspace.sources.insert file.path file
      pending := appendNew workspace.pending file.path
      hasGrown := true })
  return id

/-- Starts to publish the diagnostics of a file. -/
def markOpen (workspace : Workspace) (path : SourcePath) : Workspace :=
  { workspace with opened := appendNew workspace.opened path }

/-- Indexes a file and publishes its diagnostics from now on. -/
def openFile (file : FileDecl) : Edit NodeId := do
  let id ← replace file
  modify (fun workspace => workspace.markOpen file.path)
  return id

/-- Indexes a file again after an edit. -/
def change (file : FileDecl) : Edit NodeId :=
  replace file

/-- Stops publishing the diagnostics of a file, which stays indexed; says whether it was
open. -/
def close (workspace : Workspace) (path : SourcePath) : Bool × Workspace :=
  if workspace.isOpen path then
    (true, { workspace with opened := without workspace.opened path }.withdraw path)
  else (false, workspace)

/-- Forgets that a file awaits resolution or publishes diagnostics. -/
def forget (workspace : Workspace) (path : SourcePath) : Workspace :=
  let workspace := workspace.withdraw path
  { workspace with
    pending := without workspace.pending path
    opened := without workspace.opened path }

/-- Moves a file: what was indexed under the old path goes, and the same declarations are
indexed under the new one. -/
def rename (source target : SourcePath) : Edit NodeId := fun workspace =>
  match workspace.source? source with
  | none => .error (.invalidInput (.notIndexed source)) workspace
  | some file =>
    let wasOpen := workspace.isOpen source
    let move : Edit NodeId := do
      let _ ← removeFile source
      modify (fun workspace => workspace.forget source)
      let id ← replace { file with path := target }
      if wasOpen then
        modify (fun workspace => workspace.markOpen target)
      return id
    move { workspace with sources := workspace.sources.erase source }

/-- Takes a file out of the workspace; says whether it was known. -/
def delete (path : SourcePath) : Edit Bool := do
  let isKnown := (← get).sources.contains path
  modify (fun workspace => { workspace with sources := workspace.sources.erase path })
  let wasIndexed ← removeFile path
  modify (fun workspace => workspace.forget path)
  return isKnown || wasIndexed

end Workspace

end CanonicalNames
