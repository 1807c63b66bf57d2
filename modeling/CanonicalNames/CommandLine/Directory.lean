import CanonicalNames.CommandLine.Run

/-!
# Running in a directory

A directory as the command line sees it: texts under lists of segments. A file name leads
step by step to such a list; what it goes through must be a directory, and neither the name
nor a step of it may be too long. `run` gives the whole effect of the program on a
directory, as exit code, output and the directory afterwards.
-/

namespace CanonicalNames.CommandLine

/-- A step of a file name. -/
inductive NameStep where
  /-- A dot, which stays in the directory. -/
  | here
  /-- Two dots, which lead to the directory outside. -/
  | up
  | name (text : String)
  deriving DecidableEq, Repr

/-- The step that a piece between slashes writes; an empty one writes none. -/
def NameStep.ofPiece? (piece : List Char) : Option NameStep :=
  if piece = [] then none
  else if piece = ['.'] then some .here
  else if piece = ['.', '.'] then some .up
  else some (.name (String.ofList piece))

/-- A file name, taken apart: unlike in a source path, every dot counts. -/
structure FileName where
  isAbsolute : Bool
  steps : List NameStep
  /-- Whether a slash ends the name. -/
  endsInSlash : Bool

/-- The bytes that a file name may have at most. -/
def maxNameSize : Nat := 4095

/-- The bytes that a step of a file name may have at most. -/
def maxStepSize : Nat := 255

/-- Takes a file name apart, if it is not too long. -/
def FileName.read (text : String) : Except FileFault FileName :=
  if maxNameSize < text.utf8ByteSize then .error .nameTooLong
  else
    .ok {
      isAbsolute := text.toList.head? == some '/'
      steps := (Text.pieces '/' text.toList).filterMap NameStep.ofPiece?
      endsInSlash := text.toList.getLast? == some '/' }

/-- The files in and around a directory. A directory outside is reached by the segment `..`,
the root by the segment `/`; nothing else is known to lie outside. -/
structure Directory where
  files : Table (List String) String := {}

namespace Directory

/-- Whether a place is the directory, one outside it, or the root. -/
def isOutward (segments : List String) : Bool :=
  segments == ["/"] || segments.all (· == "..")

/-- Whether there is a directory with the given segments. -/
def isFolder (directory : Directory) (segments : List String) : Bool :=
  isOutward segments || directory.files.keys.any (fun name =>
    segments.isPrefixOf name && segments.length < name.length)

/-- The place outside another. The root has none. -/
def outside (segments : List String) : List String :=
  if segments == ["/"] then segments
  else if isOutward segments then segments ++ [".."]
  else segments.dropLast

/-- Goes a step on from a place, which must be a directory. -/
def enter (directory : Directory) (here : List String) (step : NameStep) :
    Except FileFault (List String) :=
  if directory.isFolder here then
    match step with
    | .here => .ok here
    | .up => .ok (outside here)
    | .name text =>
      if maxStepSize < text.utf8ByteSize then .error .nameTooLong else .ok (here ++ [text])
  else if directory.files.contains here then .error .notADirectory
  else .error .notFound

/-- The place where a file name starts. -/
def start (name : FileName) : List String :=
  if name.isAbsolute then ["/"] else []

/-- The text of a file. -/
def read (directory : Directory) (text : String) : Except FileFault String := do
  let name ← FileName.read text
  let place ← name.steps.foldlM directory.enter (start name)
  if directory.isFolder place then
    throw .isADirectory
  match directory.files.find? place with
  | none => throw .notFound
  | some content => if name.endsInSlash then throw .notADirectory else return content

/-- The directory with a text saved in a file. Only a name that ends in a step by name, without
a slash, makes a file. -/
def write (directory : Directory) (text content : String) : Except FileFault Directory := do
  let name ← FileName.read text
  let parent ← name.steps.dropLast.foldlM directory.enter (start name)
  let last := name.steps.getLast?.getD .here
  if name.endsInSlash && last matches .name _ then
    let _ ← directory.enter parent .here
    throw .isADirectory
  let place ← directory.enter parent last
  if directory.isFolder place then
    throw .isADirectory
  return { files := directory.files.insert place content }

end Directory

/-- What a run of the program leaves behind, besides files. -/
structure Answer where
  exit : Nat
  stdout : String := ""
  stderr : String := ""
  /-- Why a command failed. -/
  failure : Option Failure := none

/-- The answer to a failure. -/
def Answer.ofFailure (failure : Failure) : Answer where
  exit := 1
  stderr := "error: " ++ failure.message ++ "\n"
  failure := some failure

/-- Runs the program with arguments in a directory. -/
def run (directory : Directory) (arguments : List String) : Answer × Directory :=
  match outcome directory.read arguments with
  | .misused => ({ exit := 2, stderr := helpText }, directory)
  | .printed text => ({ exit := 0, stdout := text }, directory)
  | .failed failure => (Answer.ofFailure failure, directory)
  | .saved name text =>
    match directory.write name text with
    | .ok directory => ({ exit := 0 }, directory)
    | .error fault => (Answer.ofFailure (.file fault), directory)

end CanonicalNames.CommandLine
