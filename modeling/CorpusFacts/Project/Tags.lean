import CorpusFacts.Gradle.Plugins

/-!
# Project tags

What a project is, told from the dependencies and plugins of its root build script.
-/

namespace CorpusFacts

/-- A fact that tags are told from. -/
inductive TagFact where
  /-- A dependency of the build. -/
  | dependency (record : Gradle.DependencyRecord)
  /-- A plugin of the build. -/
  | plugin (record : Gradle.PluginRecord)
  deriving DecidableEq, Repr

/-- The tags of one project. -/
structure TagsRecord where
  /-- The tags, sorted. -/
  tags : List ProjectTag
  deriving DecidableEq, Repr

instance : Record TagsRecord where
  header := ["tags"]
  columns record := [",".intercalate (record.tags.map (·.name))]
  toJson record := .object [("tags", .array (record.tags.map fun tag => .text tag.name))]

instance : LawfulRecord TagsRecord where
  header_ne_nil := List.cons_ne_nil _ _
  length_columns _ := rfl

/-- Plugins of Android builds whose identifiers follow no pattern. -/
def androidPlugins : List String :=
  ["android", "android-library", "kotlin-android"]

/-- Whether an identifier is that of a plugin of Android builds. -/
def isAndroidPlugin (id : String) : Bool :=
  androidPlugins.contains id || "com.android.".toList.isPrefixOf id.toList
    || "android.application".toList.isSuffixOf id.toList
    || "android.library".toList.isSuffixOf id.toList

/-- Whether a fact shows that the Android plugins are in use. -/
def TagFact.showsAndroid : TagFact → Bool
  | dependency record => Text.occursIn "com.android.tools.build".toList record.group.toList
  | plugin record => isAndroidPlugin record.id

/-- The tags that some facts show: a project without any other tag is tagged as other. -/
def classify (facts : List TagFact) : List ProjectTag :=
  if facts.any (·.showsAndroid) then [.android] else [.other]

/-- The facts in a file: its dependencies, then its plugins. -/
def tagFactsOf (unit : SourceUnit) : Findings TagFact :=
  (Gradle.dependenciesOf unit).map .dependency ++ (Gradle.pluginsOf unit).map .plugin

/-- The tags of a project. -/
def tags : Extraction TagFact TagsRecord where
  name := "project_tags"
  scope := .descriptors Gradle.buildScripts false false
  defaultFormat := .lines
  order := .unordered
  needsModules := false
  collect := tagFactsOf
  aggregate _ findings := .ok [⟨classify (findings.map (·.value))⟩]

end CorpusFacts
