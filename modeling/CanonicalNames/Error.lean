import CanonicalNames.Element
import CanonicalNames.Json.Decode
import CanonicalNames.Text.Quoted

/-!
# Errors

Every way in which an operation can fail, by its cause. The wording of all messages stands
in this module.
-/

namespace CanonicalNames

/-- Why a file could not be read or written. -/
inductive FileFault where
  | notFound
  | notADirectory
  | isADirectory
  | nameTooLong
  /-- Any other cause, in the system's words. -/
  | other (text : String)
  deriving DecidableEq, Repr

/-- A file fault in words. -/
def FileFault.message : FileFault → String
  | .notFound => "No such file or directory (os error 2)"
  | .notADirectory => "Not a directory (os error 20)"
  | .isADirectory => "Is a directory (os error 21)"
  | .nameTooLong => "File name too long (os error 36)"
  | .other text => text

/-- What is wrong with a declaration or a request. -/
inductive InputFault where
  /-- An element without a name. -/
  | unnamed (kind : Kind)
  | alreadyIndexed (path : SourcePath)
  | rootRemoval
  | notIndexed (path : SourcePath)
  | badTypeName (name : String)
  /-- Two entries of one file that name different packages. -/
  | conflictingPackages (file : SourcePath) (seen other : String)
  deriving DecidableEq, Repr

/-- An input fault in words. -/
def InputFault.message : InputFault → String
  | .unnamed kind => kind.label ++ " element without a name"
  | .alreadyIndexed path => "file " ++ path.spelling ++ " is already indexed"
  | .rootRemoval => "the root cannot be removed"
  | .notIndexed path => path.spelling ++ " is not indexed"
  | .badTypeName name => "bad type name " ++ Text.quoted name
  | .conflictingPackages file seen other =>
    file.spelling ++ " lists packages " ++ Text.quoted seen ++ " and " ++ Text.quoted other

/-- What is wrong with a configuration. -/
inductive ConfigFault where
  | emptyFallback
  | unnamedGroup
  | repeatedGroup (name : String)
  /-- The document does not hold a configuration. -/
  | document (fault : Json.Fault)
  deriving DecidableEq, Repr

/-- A configuration fault in words. -/
def ConfigFault.message : ConfigFault → String
  | .emptyFallback => "fallback group names must not be empty"
  | .unnamedGroup => "group without a name"
  | .repeatedGroup name => "group " ++ Text.quoted name ++ " is declared twice"
  | .document fault => fault.message

/-- Why an operation failed. -/
inductive Error where
  | io (fault : FileFault)
  | json (fault : Json.Fault)
  | unknownNode (id : NodeId)
  | notSubscribable (id : NodeId)
  | invalidPath (path : String)
  | invalidInput (fault : InputFault)
  | config (fault : ConfigFault)
  deriving DecidableEq, Repr

/-- An error in words. -/
def Error.message : Error → String
  | .io fault => "I/O error: " ++ fault.message
  | .json fault => "JSON serialization/deserialization error: " ++ fault.message
  | .unknownNode id => "Unknown node: #" ++ id.repr
  | .notSubscribable id => "Node #" ++ id.repr ++ " does not accept subscribers"
  | .invalidPath path => "Invalid path: " ++ Text.quoted path
  | .invalidInput fault => "Invalid input: " ++ fault.message
  | .config fault => "Configuration error: " ++ fault.message

end CanonicalNames
