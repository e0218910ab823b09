import CorpusFacts.Analysis.Extraction
import CorpusFacts.Gradle.Block
import CorpusFacts.Gradle.Declaration

/-!
# Dependencies of build scripts

Declarations count where the innermost block with a meaning is `dependencies`, whether they are
statements or the headers of blocks. The records of a project are sorted and without duplicates.
-/

namespace CorpusFacts.Gradle

/-- One declared dependency. -/
structure DependencyRecord where
  /-- The module that declares it. -/
  module : String
  /-- The configuration, in its usual spelling. -/
  configuration : String
  /-- The group. -/
  group : String
  /-- The artifact. -/
  artifact : String
  /-- The version, where one is given. -/
  version : Option String
  /-- Whether it is declared for several projects at once. -/
  isForAllProjects : Bool
  deriving DecidableEq, Repr

namespace DependencyRecord

/-- The order of versions: none comes first. -/
def compareVersion : Option String → Option String → Ordering
  | none, none => .eq
  | none, some _ => .lt
  | some _, none => .gt
  | some first, some second => compare first second

/-- The order of records: by their fields, from first to last. -/
def compare (first second : DependencyRecord) : Ordering :=
  (Ord.compare first.module second.module).then <|
  (Ord.compare first.configuration second.configuration).then <|
  (Ord.compare first.group second.group).then <|
  (Ord.compare first.artifact second.artifact).then <|
  (compareVersion first.version second.version).then <|
  Ord.compare first.isForAllProjects second.isForAllProjects

end DependencyRecord

instance : Record DependencyRecord where
  header := ["module", "configuration", "group_id", "artifact_id", "version", "all_projects"]
  columns record :=
    [record.module, record.configuration, record.group, record.artifact,
      record.version.getD "-", truthText record.isForAllProjects]
  toJson record :=
    .object [("module", .text record.module), ("configuration", .text record.configuration),
      ("group_id", .text record.group), ("artifact_id", .text record.artifact),
      ("version", .ofText? record.version), ("all_projects", .bool record.isForAllProjects)]

instance : LawfulRecord DependencyRecord where
  header_ne_nil := List.cons_ne_nil _ _
  length_columns _ := rfl

/-- The names of build scripts, the preferred one first. -/
def buildScripts : List String :=
  ["build.gradle.kts", "build.gradle"]

/-- The record of some coordinates in a module. -/
def Coordinates.record (coordinates : Coordinates) (module : String) (isForAllProjects : Bool) :
    DependencyRecord where
  module := module
  configuration := coordinates.configuration
  group := String.ofList coordinates.group
  artifact := String.ofList coordinates.artifact
  version := coordinates.version.map String.ofList
  isForAllProjects := isForAllProjects

/-- The text of a statement, or of the header of a block. -/
def declaringText? (unit : SourceUnit) (node : Node) : Option (List Char) :=
  if node.kind == .block then (node.childOfKind? .blockHeader).map unit.text
  else some (unit.text node)

/-- Reads declarations of dependencies. -/
def dependencyAnalyzer : Analyzer BlockContext (List DependencyRecord) where
  name := "gradle-dependency"
  kinds := [.statement, .block]
  analyze unit context node :=
    if context.innermost != some .dependencies then .ok none
    else
      match declaringText? unit node with
      | none => .ok none
      | some text =>
        match declaration text with
        | .error error => .error error.message
        | .ok [] => .ok none
        | .ok list => .ok (some (list.map (·.record unit.module context.isForAllProjects)))

/-- The way dependencies are read from a build script. -/
def dependencySurvey : Survey BlockContext (List DependencyRecord) where
  start := .outside
  controllers := [blockController]
  analyzers := [dependencyAnalyzer]

/-- The dependencies declared in a file; nothing where it is no build script. -/
def dependenciesOf (unit : SourceUnit) : Findings DependencyRecord :=
  match unit.language with
  | .kotlin | .groovy => (dependencySurvey.collect unit).flatMap id
  | _ => .empty

/-- Folds dependencies into records. -/
def dependencyAggregator : Aggregator DependencyRecord (List DependencyRecord) :=
  .set DependencyRecord.compare

/-- The dependencies of a project. -/
def dependencies : Extraction DependencyRecord DependencyRecord where
  name := "gradle_dependencies"
  scope := .descriptors buildScripts true true
  defaultFormat := .csv
  order := dependencyAggregator.order
  needsModules := true
  collect := dependenciesOf
  aggregate _ findings := .ok (dependencyAggregator.aggregate findings)

end CorpusFacts.Gradle
