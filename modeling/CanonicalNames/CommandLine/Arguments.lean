/-!
# Command-line arguments

There are two commands, each with its own options:

* `classify HIERARCHY --groups FILE [--output FILE] [--sequential]`
* `check FILE... [--dependencies]`

Options and file names mix freely. The value of an option follows it as the next argument
or after an equals sign; after a double dash everything is a file name, and a single dash
is one. An option is given at most once, and no file name is empty.
-/

namespace CanonicalNames.CommandLine

/-- What is to be done. -/
inductive Command where
  /-- Report the return types of a listing by group. -/
  | classify (listing groups : String) (output : Option String) (sequential : Bool)
  /-- Print the diagnostics of source files. -/
  | check (files : List String) (dependencies : Bool)
  deriving DecidableEq, Repr

/-- What the arguments ask for. -/
inductive Request where
  | run (command : Command)
  | version
  | help
  deriving DecidableEq, Repr

/-- The options of a command: those with a value and those without. -/
structure Options where
  valued : List String
  flags : List String

/-- The arguments of a command, sorted. -/
structure Given where
  /-- File names, latest first. -/
  names : List String := []
  /-- Options with their values. -/
  values : List (String × String) := []
  flags : List String := []

/-- An argument that follows a double dash or does not start with a dash; a single dash
counts as one too. -/
def isName (argument : String) : Bool :=
  argument == "-" || argument.toList.head? != some '-'

/-- The name and value of an argument of the form `--name=value`, or the name alone. -/
def splitLong (argument : String) : String × Option String :=
  let text := argument.toList.drop 2
  match text.dropWhile (· != '=') with
  | [] => (String.ofList text, none)
  | _ :: value => (String.ofList (text.takeWhile (· != '=')), some (String.ofList value))

/-- Whether an argument starts with two dashes. -/
def isLong (argument : String) : Bool :=
  argument.toList.take 2 == ['-', '-']

/-- Adds a file name; at most `limit` are taken. -/
def Given.addName? (given : Given) (limit : Option Nat) (name : String) : Option Given :=
  if name.isEmpty || limit == some given.names.length then none
  else some { given with names := name :: given.names }

/-- Adds an option with its value. -/
def Given.addValue? (given : Given) (option value : String) : Option Given :=
  if value.isEmpty || given.values.any (fun entry => entry.1 == option) then none
  else some { given with values := given.values ++ [(option, value)] }

/-- Adds an option without a value. -/
def Given.addFlag? (given : Given) (option : String) : Option Given :=
  if given.flags.contains option then none
  else some { given with flags := option :: given.flags }

/-- The value of an option. -/
def Given.value? (given : Given) (option : String) : Option String :=
  (given.values.find? (fun entry => entry.1 == option)).map Prod.snd

/-- What became of the arguments of a command. -/
inductive Sorted where
  | given (given : Given)
  | help
  | misused

/-- Adds file names until one cannot be added. -/
def sortNames (limit : Option Nat) (given : Given) : List String → Sorted
  | [] => .given given
  | name :: rest =>
    match given.addName? limit name with
    | some given => sortNames limit given rest
    | none => .misused

/-- Sorts the arguments of a command. -/
def sortArguments (options : Options) (limit : Option Nat) (given : Given) :
    List String → Sorted
  | [] => .given given
  | argument :: rest =>
    if argument == "--" then sortNames limit given rest
    else if isName argument then
      match given.addName? limit argument with
      | some given => sortArguments options limit given rest
      | none => .misused
    else if isLong argument then
      match splitLong argument with
      | (option, some value) =>
        if options.valued.contains option then
          match given.addValue? option value with
          | some given => sortArguments options limit given rest
          | none => .misused
        else .misused
      | (option, none) =>
        if option == "help" then .help
        else if options.flags.contains option then
          match given.addFlag? option with
          | some given => sortArguments options limit given rest
          | none => .misused
        else if options.valued.contains option then
          match rest with
          | [] => .misused
          | value :: rest =>
            if isName value then
              match given.addValue? option value with
              | some given => sortArguments options limit given rest
              | none => .misused
            else .misused
        else .misused
    else if argument.toList.take 2 == ['-', 'h'] then .help
    else .misused

/-- Reads the arguments of `classify`. -/
def readClassify (arguments : List String) : Option Request :=
  match sortArguments ⟨["groups", "output"], ["sequential"]⟩ (some 1) {} arguments with
  | .misused => none
  | .help => some .help
  | .given given =>
    match given.names, given.value? "groups" with
    | [listing], some groups =>
      some (.run (.classify listing groups (given.value? "output")
        (given.flags.contains "sequential")))
    | _, _ => none

/-- Reads the arguments of `check`. -/
def readCheck (arguments : List String) : Option Request :=
  match sortArguments ⟨[], ["dependencies"]⟩ none {} arguments with
  | .misused => none
  | .help => some .help
  | .given given =>
    if given.names.isEmpty then none
    else some (.run (.check given.names.reverse (given.flags.contains "dependencies")))

/-- Reads the arguments after `help`: at most the name of a command. -/
def readHelp (arguments : List String) : Option Request :=
  match arguments with
  | [] => some .help
  | [command] => if ["classify", "check", "help"].contains command then some .help else none
  | _ => none

/-- Reads all arguments; `none` if they are not as they should be. -/
def read? (arguments : List String) : Option Request :=
  match arguments with
  | "classify" :: rest => readClassify rest
  | "check" :: rest => readCheck rest
  | "help" :: rest => readHelp rest
  | "--version" :: _ => some .version
  | "--help" :: _ => some .help
  | argument :: _ =>
    if argument.toList.take 2 == ['-', 'V'] then some .version
    else if argument.toList.take 2 == ['-', 'h'] then some .help
    else none
  | [] => none

end CanonicalNames.CommandLine
