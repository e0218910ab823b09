import CorpusFacts.Analysis.Extraction
import CorpusFacts.Analysis.Survey
import CorpusFacts.Properties.Entry

/-!
# Properties of builds

The entries of `gradle.properties` files, in the order they are written.
-/

namespace CorpusFacts.Gradle

/-- One property. -/
structure PropertyRecord where
  /-- The module that sets it. -/
  module : String
  /-- The key. -/
  key : String
  /-- The value. -/
  value : String
  deriving DecidableEq, Repr

instance : Record PropertyRecord where
  header := ["module", "key", "value"]
  columns record := [record.module, record.key, record.value]
  toJson record :=
    .object [("module", .text record.module), ("key", .text record.key),
      ("value", .text record.value)]

instance : LawfulRecord PropertyRecord where
  header_ne_nil := List.cons_ne_nil _ _
  length_columns _ := rfl

/-- Reads entries of properties files; an entry needs a key. -/
def propertyAnalyzer : Analyzer Unit PropertyRecord where
  name := "gradle-property"
  kinds := [.property]
  analyze unit _ node :=
    let (key, value) := Properties.splitEntry (unit.text node)
    if key.isEmpty then .error "property without key"
    else .ok (some ⟨unit.module, String.ofList key, String.ofList value⟩)

/-- The way properties are read from a file. -/
def propertySurvey : Survey Unit PropertyRecord where
  start := ()
  controllers := []
  analyzers := [propertyAnalyzer]

/-- The properties in a file; nothing where it is no properties file. -/
def propertiesOf (unit : SourceUnit) : Findings PropertyRecord :=
  match unit.language with
  | .properties => propertySurvey.collect unit
  | _ => .empty

/-- The properties of a project. -/
def properties : Extraction PropertyRecord PropertyRecord where
  name := "gradle_properties"
  scope := .descriptors ["gradle.properties"] true false
  defaultFormat := .csv
  order := Aggregator.list (α := PropertyRecord).order
  needsModules := true
  collect := propertiesOf
  aggregate _ findings := .ok (Aggregator.list.aggregate findings)

end CorpusFacts.Gradle
