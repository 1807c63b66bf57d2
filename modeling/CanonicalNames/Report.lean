import CanonicalNames.Grouping.Classifier
import CanonicalNames.Resolution.Resolve

/-!
# Reports

A report resolves the return type of every method once and sorts it into a group. Files are
taken in the order of their paths; a resolution stays inside the file it starts in, so that
files may be resolved at the same time as well. Records are sorted by the path of the
method, and every group is counted, the empty ones included.
-/

namespace CanonicalNames

open Json (Decoder)

/-- How a report is made. -/
structure ReportOptions where
  /-- Files may be resolved at the same time. -/
  parallel : Bool := true
  deriving DecidableEq, Repr

namespace ReportOptions

/-- The document of options. -/
def toJson (options : ReportOptions) : Json :=
  .object [("parallel", .bool options.parallel)]

/-- Reads options. -/
def decoder : Decoder ReportOptions := fun room document => do
  let fields ← Json.fields ["parallel"] room document
  let parallel ← fields.withDefault "parallel" true Json.flag
  return { parallel }

/-- Reads options from the text of a document. -/
def ofText (written : String) : Except Error ReportOptions :=
  match Json.decodeText decoder written with
  | .ok options => .ok options
  | .error fault => .error (.config (.document fault))

end ReportOptions

/-- What is reported about a method. -/
structure Record where
  /-- The dotted path of the method. -/
  method : String
  file : SourcePath
  /-- The return type as written. -/
  returnType : String
  canonical : Option String
  isArray : Bool
  group : String
  deriving DecidableEq, Repr

/-- What is reported about an index. -/
structure Report where
  /-- Sorted by method. -/
  records : List Record
  /-- The number of records in each group. -/
  groups : List (String × Nat)
  health : Health
  deriving DecidableEq, Repr

namespace Record

/-- The record of a method of a file, with the answer about its return type. -/
def ofMethod? (outline : Outline) (classifier : Classifier) (file : SourcePath) (method : NodeId)
    (resolution : Resolution) : Option Record :=
  match outline.use? (.returnType method), outline.path? method with
  | some use, some path =>
    let canonical := resolution.canonical?
    some {
      method := path
      file
      returnType := use.name
      canonical
      isArray := use.isArray
      group := classifier.classify canonical use.isArray }
  | _, _ => none

/-- The document of a record. -/
def toJson (record : Record) : Json :=
  .object [
    ("method", .string record.method),
    ("file", .string record.file.spelling),
    ("return_type", .string record.returnType),
    ("canonical", Json.ofOption .string record.canonical),
    ("is_array", .bool record.isArray),
    ("group", .string record.group)]

end Record

/-- The document of counters. -/
def Health.toJson (health : Health) : Json :=
  .object [
    ("dependency_imports", .natural health.dependencyImports),
    ("failures", .natural health.failures)]

namespace Report

/-- The files of an outline in the order of their paths. -/
def sortedFiles (outline : Outline) : List (SourcePath × NodeId) :=
  outline.files.entries.mergeSort (fun left right => SourcePath.ble left.1 right.1)

/-- The records of files, taken one after the other, and the pass that made them. -/
def recordsOf (outline : Outline) (classifier : Classifier) :
    List (SourcePath × NodeId) → Pass → List Record × Pass
  | [], pass => ([], pass)
  | (path, file) :: rest, pass =>
    let (resolutions, pass) := outline.resolveUnder .batch file pass
    let records := resolutions.filterMap (fun (method, resolution) =>
      Record.ofMethod? outline classifier path method resolution)
    let (others, pass) := recordsOf outline classifier rest pass
    (records ++ others, pass)

/-- The report with some records and counters. -/
def ofRecords (classifier : Classifier) (records : List Record) (health : Health) : Report where
  records := records.mergeSort (fun left right => decide (left.method ≤ right.method))
  groups := classifier.groupNames.map (fun name =>
    (name, records.countP (fun record => record.group == name)))
  health

/-- The report on an index, and the index with the standings that the report's pass left. -/
def run (classifier : Classifier) (index : Index) : Report × Index :=
  let (records, pass) :=
    recordsOf index.outline classifier (sortedFiles index.outline) (index.pass {})
  (ofRecords classifier records pass.health, index.afterPass pass)

/-- The document of a report. -/
def toJson (report : Report) : Json :=
  .object [
    ("records", .array (report.records.map Record.toJson)),
    ("groups", .object (report.groups.map (fun (name, count) => (name, .natural count)))),
    ("health", report.health.toJson)]

end Report

end CanonicalNames
