import CorpusFacts.Analysis.Extraction
import CorpusFacts.Analysis.Survey
import CorpusFacts.Project.Total

/-!
# Project metrics

The size of the Kotlin sources of each module: how many files, lines and characters. Every module
has a row, the root of the project first.
-/

namespace CorpusFacts

/-- The size of one source. -/
structure FileMetrics where
  /-- The number of lines. -/
  lines : Nat
  /-- The number of characters. -/
  symbols : Nat
  deriving DecidableEq, Repr

/-- The size of one module. -/
structure MetricsRecord where
  /-- The path of the module. -/
  module : String
  /-- The number of sources. -/
  files : Nat
  /-- The number of lines in all of them. -/
  lines : Nat
  /-- The number of characters in all of them. -/
  symbols : Nat
  deriving DecidableEq, Repr

instance : Record MetricsRecord where
  header := ["module", "files_count", "lines_count", "symbols_count"]
  columns record :=
    [record.module, toString record.files, toString record.lines, toString record.symbols]
  toJson record :=
    .object [("module", .text record.module), ("files_count", .natural record.files),
      ("lines_count", .natural record.lines), ("symbols_count", .natural record.symbols)]

instance : LawfulRecord MetricsRecord where
  header_ne_nil := List.cons_ne_nil _ _
  length_columns _ := rfl

/-- Measures a source as a whole. -/
def metricsAnalyzer : Analyzer Unit FileMetrics where
  name := "file-metrics"
  kinds := [.script]
  analyze unit _ _ := .ok (some ⟨Text.lineCount unit.source, unit.source.length⟩)

/-- The way sources are measured. -/
def metricsSurvey : Survey Unit FileMetrics where
  start := ()
  controllers := []
  analyzers := [metricsAnalyzer]

/-- The size of a file; nothing where it is no Kotlin source. -/
def metricsOf (unit : SourceUnit) : Findings FileMetrics :=
  match unit.language with
  | .kotlin => metricsSurvey.collect unit
  | _ => .empty

/-- The row of a module without sources. -/
def emptyRow (module : String) : MetricsRecord := ⟨module, 0, 0, 0⟩

/-- The row of a module in a table; an empty one where the table has none. -/
def rowOf (table : List MetricsRecord) (module : String) : MetricsRecord :=
  (table.find? (·.module == module)).getD (emptyRow module)

/-- The row with one more source. -/
def MetricsRecord.count (row : MetricsRecord) (size : FileMetrics) : MetricsRecord :=
  { row with
    files := row.files + 1
    lines := row.lines + size.lines
    symbols := row.symbols + size.symbols }

/-- Counts a source in the row of its module, which the first source of the module starts. -/
def countSource (finding : Finding FileMetrics) : List MetricsRecord → List MetricsRecord
  | [] => [(emptyRow finding.module).count finding.value]
  | row :: rest =>
    if row.module == finding.module then row.count finding.value :: rest
    else row :: countSource finding rest

/-- The rows of all modules with sources. -/
def countSources (findings : List (Finding FileMetrics)) : List MetricsRecord :=
  findings.foldl (fun table finding => countSource finding table) []

/-- Takes the rows of some modules out of a table. A module listed again has no row left, and its
second row is empty. -/
def takeRows (table : List MetricsRecord) : List String → List MetricsRecord
  | [] => []
  | module :: rest => rowOf table module :: takeRows (table.filter (·.module != module)) rest

/-- The rows of some modules. -/
def metricsRows (findings : List (Finding FileMetrics)) (modules : List String) :
    List MetricsRecord :=
  takeRows (countSources findings) modules

/-- The size of a project, module by module. -/
def metrics : Extraction FileMetrics MetricsRecord where
  name := "project_metrics"
  scope := .sources ["kt"]
  defaultFormat := .csv
  order := .source
  needsModules := true
  collect := metricsOf
  aggregate project findings :=
    .ok (metricsRows findings (rootModule :: project.modules.map (·.relative)))

end CorpusFacts
