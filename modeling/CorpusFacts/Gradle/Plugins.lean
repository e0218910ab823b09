import CorpusFacts.Gradle.Dependencies
import CorpusFacts.Gradle.PluginEntry

/-!
# Plugins of build scripts

Directly in a `plugins` block every statement is an entry, directly in an `apply` block plugins are
applied by calls, and elsewhere by `apply` statements. Of several records with one module and one
identifier the first is kept; it holds for several projects if any of them does.
-/

namespace CorpusFacts.Gradle

/-- One declared or applied plugin. -/
structure PluginRecord where
  /-- The module that declares it. -/
  module : String
  /-- The identifier of the plugin. -/
  id : String
  /-- The version, where one is given. -/
  version : Option String
  /-- What the identifier is applied to. -/
  args : List String
  /-- Whether the plugin is applied, and not just declared. -/
  isApplied : Bool
  /-- Whether it is declared for several projects at once. -/
  isForAllProjects : Bool
  deriving DecidableEq, Repr

namespace PluginRecord

/-- What tells records apart: the module and the identifier. -/
def key (record : PluginRecord) : String × String :=
  (record.module, record.id)

end PluginRecord

instance : Record PluginRecord where
  header := ["module", "plugin_id", "version", "args", "applied", "all_projects"]
  columns record :=
    [record.module, record.id, record.version.getD "", "#".intercalate record.args,
      truthText record.isApplied, truthText record.isForAllProjects]
  toJson record :=
    .object [("module", .text record.module), ("plugin_id", .text record.id),
      ("version", .ofText? record.version), ("args", .array (record.args.map .text)),
      ("applied", .bool record.isApplied), ("all_projects", .bool record.isForAllProjects)]

instance : LawfulRecord PluginRecord where
  header_ne_nil := List.cons_ne_nil _ _
  length_columns _ := rfl

/-- The record of an entry in a module. -/
def PluginEntry.record (entry : PluginEntry) (module : String) (isForAllProjects : Bool) :
    PluginRecord where
  module := module
  id := String.ofList entry.id
  version := entry.version.map String.ofList
  args := entry.args.map String.ofList
  isApplied := entry.isApplied
  isForAllProjects := isForAllProjects

/-- The plugin that a statement names, by the block directly around it. -/
def pluginIn (block : Option Block) (text : List Char) :
    Except PluginEntryError (Option PluginEntry) :=
  match block with
  | some .plugins => (pluginEntry text).map some
  | some .apply => .ok (pluginCall? text)
  | _ => .ok (applyStatement? text)

/-- Reads plugins off statements. -/
def pluginAnalyzer : Analyzer BlockContext PluginRecord where
  name := "gradle-plugin"
  kinds := [.statement]
  analyze unit context node :=
    match pluginIn context.current (Text.trim (unit.text node)) with
    | .error error => .error error.message
    | .ok entry => .ok (entry.map (·.record unit.module context.isForAllProjects))

/-- The way plugins are read from a build script. -/
def pluginSurvey : Survey BlockContext PluginRecord where
  start := .outside
  controllers := [blockController]
  analyzers := [pluginAnalyzer]

/-- The plugins named in a file; nothing where it is no build script. -/
def pluginsOf (unit : SourceUnit) : Findings PluginRecord :=
  match unit.language with
  | .kotlin | .groovy => pluginSurvey.collect unit
  | _ => .empty

/-- The first record of each key, with the records of a key that come later left out. -/
def firstOfEachKey : List PluginRecord → List PluginRecord
  | [] => []
  | record :: rest => record :: (firstOfEachKey rest).filter (·.key ≠ record.key)

/-- One record for each module and identifier, in the order they occur. -/
def mergePlugins (records : List PluginRecord) : List PluginRecord :=
  (firstOfEachKey records).map fun record =>
    { record with
      isForAllProjects :=
        records.any fun other => other.key == record.key && other.isForAllProjects }

/-- Folds plugins into records. -/
def pluginAggregator : Aggregator PluginRecord (List PluginRecord) where
  order := .source
  aggregate findings := mergePlugins (findings.map (·.value))

/-- The plugins of a project. -/
def plugins : Extraction PluginRecord PluginRecord where
  name := "gradle_plugins"
  scope := .descriptors buildScripts true true
  defaultFormat := .csv
  order := pluginAggregator.order
  needsModules := true
  collect := pluginsOf
  aggregate _ findings := .ok (pluginAggregator.aggregate findings)

end CorpusFacts.Gradle
