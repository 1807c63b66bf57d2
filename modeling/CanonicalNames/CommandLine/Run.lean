import CanonicalNames.CommandLine.Arguments
import CanonicalNames.Json.Printer
import CanonicalNames.Listing
import CanonicalNames.Report
import CanonicalNames.Workspace.Refresh

/-!
# Running commands

A command is a function of the texts of the files it reads. It ends with a text to print,
with a text to save in a file, or with a failure. `outcome` is what the program makes of its
arguments, whether they name a command or not.
-/

namespace CanonicalNames.CommandLine

/-- The text of a file by its name. -/
abbrev ReadFile := String → Except FileFault String

/-- Why a command failed. -/
inductive Failure where
  /-- An operation of the library failed. -/
  | refused (error : Error)
  /-- A source file could not be read, or the report could not be saved. -/
  | file (fault : FileFault)
  /-- The text of a source file does not hold a declaration. -/
  | document (fault : Json.Fault)
  deriving DecidableEq, Repr

/-- A failure in words. -/
def Failure.message : Failure → String
  | .refused error => error.message
  | .file fault => fault.message
  | .document fault => fault.message

/-- Whether the cause of a failure is a text that is not the document it should be. -/
def Failure.isDocument : Failure → Bool
  | .refused (.json _) => true
  | .refused (.config (.document _)) => true
  | .document _ => true
  | _ => false

/-- How a run of the program ends. -/
inductive Outcome where
  /-- The arguments are not as they should be. -/
  | misused
  | printed (text : String)
  | saved (name text : String)
  | failed (failure : Failure)

/-- The text of a file that the listing or the grouping is read from. -/
def readInput (read : ReadFile) (name : String) : Except Error String :=
  match read name with
  | .ok text => .ok text
  | .error fault => .error (.io fault)

/-- The report on a listing. -/
def report (read : ReadFile) (listing groups : String) : Except Error Report := do
  let listing ← Listing.ofText (← readInput read listing)
  let grouping ← Grouping.ofText (← readInput read groups)
  let index ← listing.load
  return (Report.run (.ofGrouping grouping) index).1

/-- Reads and opens source files one after the other; returns the paths that the files
declare. -/
def openAll (read : ReadFile) :
    List String → Workspace → Except Failure (List SourcePath × Workspace)
  | [], workspace => .ok ([], workspace)
  | name :: rest, workspace =>
    match read name with
    | .error fault => .error (.file fault)
    | .ok text =>
      match Json.decodeText FileDecl.decoder text with
      | .error fault => .error (.document fault)
      | .ok file =>
        match Workspace.openFile file workspace with
        | .error error _ => .error (.refused error)
        | .ok _ workspace => do
          let (paths, workspace) ← openAll read rest workspace
          return (file.path :: paths, workspace)

/-- The diagnostics of source files, in the order of the arguments. -/
def diagnose (read : ReadFile) (files : List String) (dependencies : Bool) :
    Except Failure (List Diagnostic) := do
  let (paths, workspace) ←
    openAll read files { settings := { reportDependencyImports := dependencies } }
  let refreshed := workspace.refresh.2
  return paths.flatMap refreshed.diagnostics

/-- Runs a command. -/
def Command.run (read : ReadFile) : Command → Outcome
  | .classify listing groups output _ =>
    match report read listing groups with
    | .error error => .failed (.refused error)
    | .ok report =>
      match output with
      | some name => .saved name report.toJson.pretty
      | none => .printed (report.toJson.pretty ++ "\n")
  | .check files dependencies =>
    match diagnose read files dependencies with
    | .error failure => .failed failure
    | .ok [] => .printed "No problems found.\n"
    | .ok diagnostics =>
      .printed (String.join (diagnostics.map (fun diagnostic => diagnostic.display ++ "\n")))

/-- The files that a command reads. -/
def Command.inputs : Command → List String
  | .classify listing groups _ _ => [listing, groups]
  | .check files _ => files

/-- The name and version of the program. -/
def versionText : String := "typescope 0.1.0\n"

/-- A short account of the commands. -/
def helpText : String :=
  "Usage: typescope <COMMAND>\n\nCommands:\n" ++
  "  classify HIERARCHY --groups CONFIG [--output FILE] [--sequential]\n" ++
  "  check FILE... [--dependencies]\n\n" ++
  "Options:\n  -h, --help\n  -V, --version\n"

/-- The files that the program reads with some arguments. -/
def inputs (arguments : List String) : List String :=
  match read? arguments with
  | some (.run command) => command.inputs
  | _ => []

/-- Runs the program with some arguments. -/
def outcome (read : ReadFile) (arguments : List String) : Outcome :=
  match read? arguments with
  | none => .misused
  | some .version => .printed versionText
  | some .help => .printed helpText
  | some (.run command) => command.run read

end CanonicalNames.CommandLine
