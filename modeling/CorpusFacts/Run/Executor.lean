import CorpusFacts.Project.BuildRoot
import CorpusFacts.Project.Tags
import CorpusFacts.Project.Units
import CorpusFacts.Run.Outcome

/-!
# Runs

A run makes the records of every project of a corpus and writes them, project after project. A
project that fails leaves the others alone; only a run that cannot start is an error.
-/

namespace CorpusFacts

/-- How the directory of a project is replaced by that of its build. -/
abbrev RootResolver := FileTree → Path → Option Path

/-- What runs need to know: an extraction, and how projects, files and output files are found. -/
structure Executor (π ρ : Type) where
  /-- What is extracted. -/
  extraction : Extraction π ρ
  /-- How projects and their files are found. -/
  finder : ProjectFinder
  /-- How output files are named. -/
  naming : ArtifactNaming
  /-- The most seconds that a project may take. -/
  timeoutSeconds : Option Nat
  /-- How the directory of a build is found, if it is looked for. -/
  resolver : Option RootResolver

/-- The records of a project with what else is reported of it. -/
structure ProjectFacts (ρ : Type) where
  /-- The records. -/
  records : List ρ
  /-- The number of files read. -/
  units : Nat
  /-- The problems that are tolerated. -/
  warnings : List String

/-- What was read from some files: the findings, and the files skipped. -/
structure Reading (π : Type) where
  /-- The findings. -/
  findings : Findings π
  /-- A line for each file skipped. -/
  skipped : List String

namespace Executor

/-- The executor of an extraction as it is configured. -/
def ofConfig (extraction : Extraction π ρ) (config : RunConfig) :
    Except ConfigError (Executor π ρ) := do
  if config.jobs == some 0 then .error .zeroJobs
  let format ← config.outputFormat extraction.defaultFormat
  RunConfig.checkPattern patternFault? config.fileName
  let finder ← ProjectFinder.ofConfig config
  return {
    extraction := extraction
    finder := finder
    naming :=
      ⟨⟨config.outputDirectory⟩, config.fileName.getD defaultPattern, extraction.name, format⟩
    timeoutSeconds := config.timeoutSeconds
    resolver := none }

/-- An executor that looks for the builds of projects in nested directories. -/
def resolvingRoots (executor : Executor π ρ) : Executor π ρ :=
  { executor with resolver := some buildRoot? }

/-- The project in the directory of its build; it stays inside the boundary it had. -/
def resolveRoot (executor : Executor π ρ) (tree : FileTree) (project : Project) : Project :=
  match executor.resolver.bind fun resolver => resolver tree project.root with
  | none => project
  | some root => { Project.ofRoot project.name root with boundary := project.boundary }

/-- A project ready for analysis: in the directory of its build, and with its modules if they are
needed. -/
def prepare (executor : Executor π ρ) (tree : FileTree) (project : Project) :
    Except ProjectError Project :=
  let project := executor.resolveRoot tree project
  if executor.extraction.needsModules then executor.finder.expandModules tree project
  else .ok project

/-- What a file adds to what was read before it. A file that cannot be parsed is skipped, unless it
is mandatory. -/
def readUnit (executor : Executor π ρ) (tree : FileTree) (reading : Reading π)
    (unit : AnalysisUnit) : Except ProjectError (Reading π) :=
  match SourceUnit.ofFile tree unit.path unit.relativePath unit.module with
  | .ok source =>
    .ok { reading with findings := reading.findings ++ executor.extraction.collect source }
  | .error error =>
    if unit.isMandatory then .error (.unparsed error)
    else
      let line := "skipped " ++ unit.relativePath ++ ": " ++ error.text
      .ok { reading with skipped := reading.skipped ++ [line] }

/-- The records of a project. -/
def analyze (executor : Executor π ρ) (tree : FileTree) (project : Project) :
    Except ProjectError (ProjectFacts ρ) := do
  let project ← executor.prepare tree project
  let units ← executor.finder.units tree project executor.extraction.scope
  let reading ← units.foldlM (executor.readUnit tree) ⟨.empty, []⟩
  let records ← (executor.extraction.aggregate project reading.findings.values).mapError .crashed
  return ⟨records, units.length, reading.skipped ++ reading.findings.problems.map (·.text)⟩

/-- The records of a project in the time it may take. No analysis ends within no time at all; any
other limit is taken to be enough. -/
def analyzeInTime (executor : Executor π ρ) (tree : FileTree) (project : Project) :
    Except ProjectError (ProjectFacts ρ) :=
  if executor.timeoutSeconds == some 0 then .error (.timedOut 0)
  else executor.analyze tree project

/-- Makes and writes the records of one project. -/
def executeProject [Record ρ] (executor : Executor π ρ) (tree : FileTree) (project : Project) :
    FileTree × Outcome :=
  match executor.analyzeInTime tree project with
  | .error error => (tree, ⟨project.name, project.root, .failed error⟩)
  | .ok facts =>
    let artifact := executor.naming.path project.name
    match writeRecords tree artifact executor.naming.format facts.records with
    | (written, .error error) => (written, ⟨project.name, project.root, .failed (.output error)⟩)
    | (written, .ok ()) =>
      (written, ⟨project.name, project.root,
        .succeeded artifact facts.records.length facts.units facts.warnings⟩)

/-- Makes and writes the records of some projects, one after the other. -/
def executeAll [Record ρ] (executor : Executor π ρ) (tree : FileTree) :
    List Project → FileTree × List Outcome
  | [] => (tree, [])
  | project :: rest =>
    let (written, outcome) := executor.executeProject tree project
    let (written, outcomes) := executor.executeAll written rest
    (written, outcome :: outcomes)

/-- The projects of a corpus. A directory in which the build is found counts as a project. -/
def projects (executor : Executor π ρ) (tree : FileTree) (corpus : Path) (mode : RunMode) :
    List Project :=
  executor.finder.discover tree
    (fun directory => (executor.resolver.bind fun resolver => resolver tree directory).isSome)
    corpus mode

/-- Refuses a corpus that is no directory. -/
def checkCorpus (tree : FileTree) (corpus : Path) : Except ConfigError Unit :=
  if !tree.exists? corpus then .error (.corpusMissing corpus)
  else if !tree.isDirectory corpus then .error (.corpusNotDirectory corpus)
  else .ok ()

/-- Runs over a corpus. -/
def run [Record ρ] (executor : Executor π ρ) (tree : FileTree) (corpus : Path) (mode : RunMode) :
    Except ConfigError (FileTree × RunSummary) := do
  checkCorpus tree corpus
  let (written, outcomes) := executor.executeAll tree (executor.projects tree corpus mode)
  return (written, ⟨executor.extraction.name, outcomes⟩)

end Executor

/-- The executor that tags projects. -/
def taggingExecutor (config : RunConfig) : Except ConfigError (Executor TagFact TagsRecord) := do
  let executor ← Executor.ofConfig tags config
  return if config.resolvesRoot then executor.resolvingRoots else executor

/-- A project with its tag, found without writing anything. -/
def tagProject (executor : Executor TagFact TagsRecord) (tree : FileTree) (project : Project) :
    Except ProjectError Project := do
  let facts ← executor.analyzeInTime tree project
  let tag := (facts.records.head?.bind (·.tags.head?)).getD .other
  return { project with tag := some tag }

end CorpusFacts
