import CanonicalNames.CommandLine.Run

/-!
# The program

Reads the files that a command names, runs the command on their texts, and prints or saves
what comes of it.
-/

namespace CanonicalNames.CommandLine

/-- A system's error code without its sign: some operations report it negated. -/
def errorCode (code : UInt32) : Nat :=
  if code.toNat < 2147483648 then code.toNat else 4294967296 - code.toNat

/-- The cause of a failed file operation. -/
def faultOf : IO.Error → FileFault
  | .noFileOrDirectory .. => .notFound
  | .inappropriateType _ code text =>
    if errorCode code = 20 then .notADirectory
    else if errorCode code = 21 then .isADirectory
    else .other text
  | .invalidArgument _ code text =>
    if errorCode code = 36 then .nameTooLong else .other text
  | other => .other (toString other)

/-- Reads files by name. -/
def readAll (names : List String) : IO (Table String (Except FileFault String)) :=
  names.foldlM (fun texts (name : String) => do
    try
      let text ← IO.FS.readFile name
      return texts.insert name (.ok text)
    catch error => return texts.insert name (.error (faultOf error))) {}

/-- Reports a failure. -/
def reportFailure (failure : Failure) : IO UInt32 := do
  IO.eprintln ("error: " ++ failure.message)
  return 1

end CanonicalNames.CommandLine

open CanonicalNames CommandLine in
/-- Runs the program with arguments and returns its exit code. -/
def main (arguments : List String) : IO UInt32 := do
  let texts ← readAll (inputs arguments)
  match outcome (fun name => (texts.find? name).getD (.error .notFound)) arguments with
  | .misused =>
    IO.eprint helpText
    return 2
  | .printed text =>
    IO.print text
    return 0
  | .failed failure => reportFailure failure
  | .saved name text =>
    try
      IO.FS.writeFile name text
      return 0
    catch error => reportFailure (.file (faultOf error))
