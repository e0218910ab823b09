import CorpusFacts.Analysis.Extraction
import CorpusFacts.Imports.Directive

/-!
# Imports of a project

The names that the sources of a project import, in the order they are written. Names that lie in
packages of the project itself can be left out, and so can repetitions.
-/

namespace CorpusFacts.Imports

/-- The languages that imports are read from. -/
inductive ImportLanguage where
  /-- Kotlin sources. -/
  | kotlin
  /-- Java sources. -/
  | java
  /-- Python sources. -/
  | python
  deriving DecidableEq, Repr

namespace ImportLanguage

/-- The name of a language. -/
def name : ImportLanguage → String
  | kotlin => "kotlin"
  | java => "java"
  | python => "python"

/-- The extension of sources in a language. -/
def extension : ImportLanguage → String
  | kotlin => "kt"
  | java => "java"
  | python => "py"

/-- Every language. -/
def all : List ImportLanguage :=
  [kotlin, java, python]

/-- The language with a name or extension, in whatever case it is written. -/
def ofName? (text : String) : Option ImportLanguage :=
  let key := String.ofList (Text.asciiLower text.toList)
  all.find? fun language => language.name == key || language.extension == key

/-- The language of a parsed file. -/
def ofLanguage? : Language → Option ImportLanguage
  | .kotlin => some kotlin
  | .java => some java
  | .python => some python
  | _ => none

/-- The analyzers of a language. -/
def analyzers : ImportLanguage → List (Analyzer Unit ImportFact)
  | kotlin => [packageAnalyzer .packageDirective, importAnalyzer .importDirective]
  | java => [packageAnalyzer .packageDeclaration, importAnalyzer .importDeclaration]
  | python => [pythonImportAnalyzer]

end ImportLanguage

/-- One imported name. -/
structure ImportRecord where
  /-- The name. -/
  name : String
  deriving DecidableEq, Repr

instance : Record ImportRecord where
  header := ["import"]
  columns record := [record.name]
  toJson record := .object [("import", .text record.name)]

instance : LawfulRecord ImportRecord where
  header_ne_nil := List.cons_ne_nil _ _
  length_columns _ := rfl

/-- Which names become records. -/
structure ImportPolicy where
  /-- Whether names in packages of the project are left out. -/
  excludesProjectPackages : Bool
  /-- Whether a name is kept only where it occurs first. -/
  isDistinct : Bool
  deriving DecidableEq, Repr

/-- Whether a name is a package, or lies in it. -/
def liesIn (package name : String) : Bool :=
  name == package || (package.toList ++ ['.']).isPrefixOf name.toList

/-- The packages that files of the project belong to. -/
def packages (findings : List (Finding ImportFact)) : List String :=
  findings.filterMap fun finding =>
    match finding.value with
    | .package name => some name
    | .imports _ => none

/-- Every name imported, in order. -/
def names (findings : List (Finding ImportFact)) : List String :=
  findings.flatMap fun finding =>
    match finding.value with
    | .package _ => []
    | .imports names => names

/-- Folds what directives say into records. -/
def importAggregator (policy : ImportPolicy) : Aggregator ImportFact (List ImportRecord) where
  order := .source
  aggregate findings :=
    let own := if policy.excludesProjectPackages then packages findings else []
    let foreign := (names findings).filter fun name => !own.any (liesIn · name)
    (if policy.isDistinct then firstOccurrences foreign else foreign).map .mk

/-- What the directives of a file say; nothing where its language is not asked for. -/
def importsOf (languages : List ImportLanguage) (unit : SourceUnit) : Findings ImportFact :=
  match ImportLanguage.ofLanguage? unit.language with
  | none => .empty
  | some language =>
    if languages.contains language then
      (⟨(), [], language.analyzers⟩ : Survey Unit ImportFact).collect unit
    else .empty

/-- The imports of a project in some languages. -/
def imports (languages : List ImportLanguage) (policy : ImportPolicy) :
    Extraction ImportFact ImportRecord where
  name := "import_directives"
  scope := .sources (languages.map (·.extension))
  defaultFormat := .lines
  order := (importAggregator policy).order
  needsModules := true
  collect := importsOf languages
  aggregate _ findings := .ok ((importAggregator policy).aggregate findings)

end CorpusFacts.Imports
