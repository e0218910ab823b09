import CorpusFacts.CommandLine.Parse
import CorpusFacts.Gradle.PropertyEntries
import CorpusFacts.Project.Metrics
import CorpusFacts.Project.ModuleList
import CorpusFacts.Run.Executor
import CorpusFacts.Run.Report

/-!
# Running commands

A command loads its configuration, lets its options override it, checks it, runs and reports. A run
that cannot start changes nothing and ends with the exit code of an error; projects that fail do not
count as an error unless that is asked for.
-/

namespace CorpusFacts.CommandLine

/-- How a command ends. -/
structure Ending where
  /-- The exit code. -/
  exitCode : Nat
  /-- What is shown. -/
  output : String
  /-- The errors reported. -/
  errors : List String
  deriving DecidableEq, Repr

/-- The exit code of a command that does what it is asked for. -/
def exitSuccess : Nat := 0

/-- The exit code of a command with a project that failed, where that counts. -/
def exitFailed : Nat := 1

/-- The exit code of a command that cannot run. -/
def exitError : Nat := 2

namespace Ending

/-- The end of a command that cannot run. -/
def error (message : String) : Ending := ⟨exitError, "", [message]⟩

end Ending

namespace Arguments

/-- The path of the corpus. -/
def corpusPath (arguments : Arguments) : Path := ⟨arguments.corpus.getD ""⟩

/-- The number given for an option. -/
def numberOf? (arguments : Arguments) (option : CommandOption) : Option Nat :=
  (arguments.valueOf? option).bind number?

/-- The configuration file: the one given, or one in the corpus, or one in the working directory. -/
def configFile? (arguments : Arguments) (tree : FileTree) : Option Path :=
  (arguments.valueOf? .config).map Path.mk
    <|> RunConfig.discover? tree arguments.corpusPath
    <|> RunConfig.discover? tree ⟨"."⟩

/-- The languages given, texts with commas in them counting as several. -/
def languages (arguments : Arguments) : List String :=
  (arguments.valuesOf .languages).flatMap fun text =>
    (Text.split ',' text.toList).map String.ofList

/-- The settings of import analysis with what is given in their place. -/
def overrideImports (arguments : Arguments) (settings : ImportSettings) : ImportSettings where
  languages := if arguments.has .languages then arguments.languages else settings.languages
  excludesProjectPackages :=
    settings.excludesProjectPackages && !arguments.has .keepProjectPackages
  isDistinct := settings.isDistinct || arguments.has .distinct

/-- A configuration with what is given in its place. -/
def override (arguments : Arguments) (config : RunConfig) : RunConfig :=
  { config with
    outputDirectory := (arguments.valueOf? .outputDirectory).getD config.outputDirectory
    fileName := arguments.valueOf? .fileName <|> config.fileName
    format := arguments.valueOf? .format <|> config.format
    mode := (arguments.valueOf? .mode).getD config.mode
    jobs := arguments.numberOf? .jobs <|> config.jobs
    timeoutSeconds := arguments.numberOf? .timeout <|> config.timeoutSeconds
    hasParallelUnits := config.hasParallelUnits || arguments.has .parallelUnits
    summaryFile := arguments.valueOf? .summary <|> config.summaryFile
    resolvesRoot := config.resolvesRoot || arguments.has .resolveRoot
    imports := arguments.overrideImports config.imports }

/-- The configuration of a command, checked. -/
def config (arguments : Arguments) (tree : FileTree) (command : Command) :
    Except ConfigError RunConfig := do
  let loaded ←
    match arguments.configFile? tree with
    | some path => RunConfig.ofFile tree path
    | none => .ok .default
  let config := arguments.override loaded
  if command == .all then config.validateShared else config.validate
  return config

end Arguments

/-- A run over a corpus that leaves behind the files it wrote. -/
abbrev RunAction := FileTree → Except ConfigError (FileTree × RunSummary)

/-- The run of an extraction. -/
def runOf [Record ρ] (executor : Except ConfigError (Executor π ρ)) (config : RunConfig)
    (corpus : Path) : RunAction :=
  fun tree => do (← executor).run tree corpus (← config.runMode)

/-- The import analysis of a configuration. -/
def importExecutor (config : RunConfig) :
    Except ConfigError (Executor Imports.ImportFact Imports.ImportRecord) := do
  let policy := ⟨config.imports.excludesProjectPackages, config.imports.isDistinct⟩
  Executor.ofConfig (Imports.imports (← config.importLanguages) policy) config

/-- The runs of every analysis, in order. -/
def everyRun (config : RunConfig) (corpus : Path) : List RunAction :=
  [runOf (importExecutor config) config corpus,
    runOf (Executor.ofConfig Gradle.dependencies config) config corpus,
    runOf (Executor.ofConfig Gradle.plugins config) config corpus,
    runOf (Executor.ofConfig Gradle.properties config) config corpus,
    runOf (Executor.ofConfig moduleList config) config corpus,
    runOf (Executor.ofConfig CorpusFacts.metrics config) config corpus,
    runOf (taggingExecutor config) config corpus]

/-- The runs of a command, in order. -/
def Command.runs (command : Command) (config : RunConfig) (corpus : Path) : List RunAction :=
  match command with
  | imports => [runOf (importExecutor config) config corpus]
  | dependencies => [runOf (Executor.ofConfig Gradle.dependencies config) config corpus]
  | plugins => [runOf (Executor.ofConfig Gradle.plugins config) config corpus]
  | properties => [runOf (Executor.ofConfig Gradle.properties config) config corpus]
  | modules => [runOf (Executor.ofConfig moduleList config) config corpus]
  | metrics => [runOf (Executor.ofConfig CorpusFacts.metrics config) config corpus]
  | tag => [runOf (taggingExecutor config) config corpus]
  | all => everyRun config corpus

/-- Some runs, one after the other, up to the first that cannot start. -/
def runAll (tree : FileTree) : List RunAction → FileTree × Except ConfigError (List RunSummary)
  | [] => (tree, .ok [])
  | action :: rest =>
    match action tree with
    | .error error => (tree, .error error)
    | .ok (written, summary) =>
      match runAll written rest with
      | (written, .error error) => (written, .error error)
      | (written, .ok summaries) => (written, .ok (summary :: summaries))

/-- The failure behind an output error. -/
def failureOf : OutputError → FileFailure
  | .createDirectory _ failure | .write _ failure => failure

/-- Reports some runs: shows them and writes their summary. -/
def finish (arguments : Arguments) (config : RunConfig) (tree : FileTree)
    (runs : List RunSummary) : FileTree × Ending :=
  let output :=
    if arguments.has .quiet then ""
    else report arguments.corpusPath.text config.outputDirectory runs
  let exitCode := if arguments.has .strict && totalFailed runs > 0 then exitFailed else exitSuccess
  match config.summaryFile with
  | none => (tree, ⟨exitCode, output, []⟩)
  | some path =>
    match writeSummary tree ⟨path⟩ arguments.corpusPath.text runs with
    | (written, .ok ()) => (written, ⟨exitCode, output, []⟩)
    | (written, .error error) => (written, ⟨exitError, output, [(failureOf error).message]⟩)

/-- Does what is requested. -/
def Request.run (request : Request) (tree : FileTree) : FileTree × Ending :=
  let arguments := request.arguments
  match arguments.config tree request.command with
  | .error error => (tree, .error error.message)
  | .ok config =>
    match runAll tree (request.command.runs config arguments.corpusPath) with
    | (written, .error error) => (written, .error error.message)
    | (written, .ok runs) => finish arguments config written runs

end CorpusFacts.CommandLine
