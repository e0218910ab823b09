import CorpusFacts.Config.Settings
import CorpusFacts.Files.FileTree
import CorpusFacts.Glob.Match
import CorpusFacts.Imports.Imports
import CorpusFacts.Output.Naming

/-!
# Run configurations

Everything about a run that can be configured. Every setting has a default, so a configuration may
leave out any of them; names in it are checked before the run starts, in a fixed order. Every fault
of a configuration or a corpus that keeps a run from starting has its wording.
-/

namespace CorpusFacts

/-! ## Why a run cannot start -/

/-- Why a run cannot start. -/
inductive ConfigError where
  /-- The corpus does not exist. -/
  | corpusMissing (path : Path)
  /-- The corpus is not a directory. -/
  | corpusNotDirectory (path : Path)
  /-- There is no output format of this name. -/
  | unknownFormat (name : String)
  /-- There is no run mode of this name. -/
  | unknownMode (name : String)
  /-- There is no language of this name. -/
  | unknownLanguage (name : String)
  /-- A pattern of file names has a fault. -/
  | fileName (pattern : String) (fault : PatternFault)
  /-- A pattern of paths has a fault. -/
  | glob (pattern : String) (fault : Glob.Fault)
  /-- No worker is asked for. -/
  | zeroJobs
  /-- A configuration file cannot be read. -/
  | unreadable (path : Path) (reason : String)
  /-- A configuration file is malformed. -/
  | malformed (path : Path)
  deriving DecidableEq, Repr

namespace ConfigError

/-- The wording of an error; for a malformed file, the start of it. -/
def message : ConfigError → String
  | corpusMissing path => "corpus root " ++ path.text ++ " does not exist"
  | corpusNotDirectory path => "corpus root " ++ path.text ++ " is not a directory"
  | unknownFormat name =>
    "unknown output format " ++ Text.quoted name.toList
      ++ ", must be one of: lines, csv, tsv, json"
  | unknownMode name =>
    "unknown run mode " ++ Text.quoted name.toList ++ ", must be one of: auto, single, batch"
  | unknownLanguage name =>
    "unknown language " ++ Text.quoted name.toList ++ ", must be one of: kotlin, java, python"
  | fileName pattern fault =>
    "invalid output file name pattern " ++ Text.quoted pattern.toList ++ ": " ++ fault.message
  | glob pattern fault =>
    "invalid glob pattern " ++ Text.quoted pattern.toList ++ ": error parsing glob '" ++ pattern
      ++ "': " ++ fault.message
  | zeroJobs => "jobs must be at least 1"
  | unreadable path reason => "cannot read config file " ++ path.text ++ ": " ++ reason
  | malformed path => "invalid config file " ++ path.text

end ConfigError

/-! ## What can be configured -/

/-- How a corpus is divided into projects. -/
inductive RunMode where
  /-- One project if the corpus is one, otherwise many. -/
  | auto
  /-- The corpus is one project. -/
  | single
  /-- Every project directly in the corpus. -/
  | batch
  deriving DecidableEq, Repr

namespace RunMode

/-- The name of a mode. -/
def name : RunMode → String
  | auto => "auto"
  | single => "single"
  | batch => "batch"

/-- The mode with a name, in whatever case it is written. -/
def ofName? (text : String) : Option RunMode :=
  let key := String.ofList (Text.asciiLower text.toList)
  [auto, single, batch].find? fun mode => mode.name == key

end RunMode

/-- The settings of import analysis. -/
structure ImportSettings where
  /-- The names of the languages. -/
  languages : List String
  /-- Whether names in packages of the project are left out. -/
  excludesProjectPackages : Bool
  /-- Whether a name is kept only where it occurs first. -/
  isDistinct : Bool
  deriving DecidableEq, Repr

/-- The settings of a run. -/
structure RunConfig where
  /-- The output directory. -/
  outputDirectory : String
  /-- The pattern of output file names. -/
  fileName : Option String
  /-- The name of the output format. -/
  format : Option String
  /-- The name of the run mode. -/
  mode : String
  /-- How many projects are worked on at once; by default, one for each processor. -/
  jobs : Option Nat
  /-- The most seconds that a project may take. -/
  timeoutSeconds : Option Nat
  /-- Whether the files of a project are worked on at once. -/
  hasParallelUnits : Bool
  /-- The names of files that mark a directory as a project. -/
  markers : List String
  /-- The patterns of paths that are left out. -/
  excludedPaths : List String
  /-- Where a summary of the run is written. -/
  summaryFile : Option String
  /-- Whether a build is looked for in nested directories before a project is tagged. -/
  resolvesRoot : Bool
  /-- The settings of import analysis. -/
  imports : ImportSettings
  deriving DecidableEq, Repr

namespace ImportSettings

/-- The default settings. -/
def default : ImportSettings := ⟨["kotlin", "java"], true, false⟩

/-- The names of the settings. -/
def fieldNames : List String :=
  ["languages", "exclude_project_packages", "distinct"]

/-- The settings that a value gives. -/
def read? [Settings δ] (value : δ) : Option ImportSettings := do
  match ← Settings.fields? fieldNames value with
  | [languages, excludes, distinct] =>
    return {
      languages := ← Settings.field? Settings.texts? default.languages languages
      excludesProjectPackages :=
        ← Settings.field? Settings.truth? default.excludesProjectPackages excludes
      isDistinct := ← Settings.field? Settings.truth? default.isDistinct distinct }
  | _ => none

end ImportSettings

namespace RunConfig

/-- The names of the files that mark a project by default. -/
def defaultMarkers : List String :=
  ["build.gradle", "build.gradle.kts", "settings.gradle", "settings.gradle.kts", "pom.xml",
    "pyproject.toml", "setup.py", "requirements.txt"]

/-- The default settings. -/
def default : RunConfig where
  outputDirectory := "factmine-out"
  fileName := none
  format := none
  mode := "auto"
  jobs := none
  timeoutSeconds := none
  hasParallelUnits := false
  markers := defaultMarkers
  excludedPaths := []
  summaryFile := none
  resolvesRoot := false
  imports := .default

/-- The names of the settings. -/
def fieldNames : List String :=
  ["output_dir", "file_name", "format", "mode", "jobs", "timeout_secs", "parallel_units", "markers",
    "excluded_paths", "summary_file", "resolve_root", "imports"]

/-- The settings that a value gives, over some defaults. -/
def read? [Settings δ] (base : RunConfig) (value : δ) : Option RunConfig := do
  match ← Settings.fields? fieldNames value with
  | [outputDirectory, fileName, format, mode, jobs, timeout, parallel, markers, excluded, summary,
      resolves, imports] =>
    return {
      outputDirectory := ← Settings.field? Settings.text? base.outputDirectory outputDirectory
      fileName := ← Settings.field? (Settings.optional? Settings.text?) base.fileName fileName
      format := ← Settings.field? (Settings.optional? Settings.text?) base.format format
      mode := ← Settings.field? Settings.text? base.mode mode
      jobs := ← Settings.field? (fun jobs => (Settings.natural? jobs).map some) base.jobs jobs
      timeoutSeconds :=
        ← Settings.field? (Settings.optional? Settings.natural?) base.timeoutSeconds timeout
      hasParallelUnits := ← Settings.field? Settings.truth? base.hasParallelUnits parallel
      markers := ← Settings.field? Settings.texts? base.markers markers
      excludedPaths := ← Settings.field? Settings.texts? base.excludedPaths excluded
      summaryFile :=
        ← Settings.field? (Settings.optional? Settings.text?) base.summaryFile summary
      resolvesRoot := ← Settings.field? Settings.truth? base.resolvesRoot resolves
      imports := ← Settings.field? ImportSettings.read? base.imports imports }
  | _ => none

/-- The settings in the text of a configuration file; a blank text gives none. -/
def ofYaml? (text : List Char) : Option RunConfig :=
  if (Text.trim text).isEmpty then some default
  else (Yaml.document? text).bind fun root => default.read? (Yaml.Place.mk root root)

/-- The configuration in a file. -/
def ofFile (tree : FileTree) (path : Path) : Except ConfigError RunConfig :=
  match tree.read path with
  | .error failure => .error (.unreadable path failure.message)
  | .ok bytes =>
    match String.fromUTF8? bytes with
    | none => .error (.unreadable path "stream did not contain valid UTF-8")
    | some text =>
      match ofYaml? text.toList with
      | some config => .ok config
      | none => .error (.malformed path)

/-- The names of configuration files, the preferred one first. -/
def fileNames : List String :=
  ["factmine.yaml", ".factmine.yaml"]

/-- The configuration file of a directory. -/
def discover? (tree : FileTree) (directory : Path) : Option Path :=
  (fileNames.map directory.join).find? tree.isFile

/-- The run mode of a configuration. -/
def runMode (config : RunConfig) : Except ConfigError RunMode :=
  match RunMode.ofName? config.mode with
  | some mode => .ok mode
  | none => .error (.unknownMode config.mode)

/-- The output format of a configuration, if it has one. -/
def outputFormat? (config : RunConfig) : Except ConfigError (Option OutputFormat) :=
  match config.format with
  | none => .ok none
  | some name =>
    match OutputFormat.ofName? name with
    | some format => .ok (some format)
    | none => .error (.unknownFormat name)

/-- The output format of a configuration, or else another one. -/
def outputFormat (config : RunConfig) (default : OutputFormat) : Except ConfigError OutputFormat :=
  config.outputFormat?.map (·.getD default)

/-- The tokens of a pattern of paths. -/
def globTokens (pattern : String) : Except ConfigError (List Glob.Token) :=
  (Glob.tokens pattern.toList).mapError (.glob pattern)

/-- The set of some patterns of paths. -/
def globs (patterns : List String) : Except ConfigError Glob.Globs :=
  (patterns.mapM globTokens).map .mk

/-- The paths that a configuration leaves out. -/
def exclusions (config : RunConfig) : Except ConfigError Glob.Globs :=
  globs config.excludedPaths

/-- The language of a name. -/
def importLanguage (name : String) : Except ConfigError Imports.ImportLanguage :=
  match Imports.ImportLanguage.ofName? name with
  | some language => .ok language
  | none => .error (.unknownLanguage name)

/-- The languages of import analysis. -/
def importLanguages (config : RunConfig) : Except ConfigError (List Imports.ImportLanguage) :=
  config.imports.languages.mapM importLanguage

/-- Refuses a pattern of file names that a check finds a fault in. -/
def checkPattern (fault? : String → Option PatternFault) :
    Option String → Except ConfigError Unit
  | none => .ok ()
  | some pattern =>
    match fault? pattern with
    | none => .ok ()
    | some fault => .error (.fileName pattern fault)

/-- Checks all that can be checked before a run. -/
def validate (config : RunConfig) : Except ConfigError Unit := do
  if config.jobs == some 0 then .error .zeroJobs
  let _ ← config.runMode
  let _ ← config.outputFormat?
  checkPattern patternFault? config.fileName
  let _ ← config.exclusions
  let _ ← config.importLanguages

/-- Checks all that can be checked before a run of several analyses into one output directory. -/
def validateShared (config : RunConfig) : Except ConfigError Unit := do
  config.validate
  checkPattern sharedPatternFault? config.fileName

end RunConfig

end CorpusFacts
