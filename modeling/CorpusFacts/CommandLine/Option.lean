/-!
# Commands and options

The commands of the program and the options that each of them takes.
-/

namespace CorpusFacts.CommandLine

/-- What the program is asked to do. -/
inductive Command where
  /-- Extract imports. -/
  | imports
  /-- Extract dependencies. -/
  | dependencies
  /-- Extract plugins. -/
  | plugins
  /-- Extract properties. -/
  | properties
  /-- List modules. -/
  | modules
  /-- Measure sources. -/
  | metrics
  /-- Tag projects. -/
  | tag
  /-- Do all of this. -/
  | all
  deriving DecidableEq, Repr

namespace Command

/-- The names of a command, the usual one first. -/
def names : Command → List String
  | imports => ["imports"]
  | dependencies => ["dependencies", "deps"]
  | plugins => ["plugins"]
  | properties => ["properties"]
  | modules => ["modules"]
  | metrics => ["metrics"]
  | tag => ["tag"]
  | all => ["all"]

/-- Every command. -/
def every : List Command :=
  [imports, dependencies, plugins, properties, modules, metrics, tag, all]

/-- The command of a name. -/
def ofName? (name : String) : Option Command :=
  every.find? fun command => command.names.contains name

end Command

/-- An option of a command. -/
inductive CommandOption where
  /-- The output directory. -/
  | outputDirectory
  /-- The pattern of output file names. -/
  | fileName
  /-- The output format. -/
  | format
  /-- The run mode. -/
  | mode
  /-- How many projects are worked on at once. -/
  | jobs
  /-- The most seconds that a project may take. -/
  | timeout
  /-- That the files of a project are worked on at once. -/
  | parallelUnits
  /-- The configuration file. -/
  | config
  /-- Where a summary is written. -/
  | summary
  /-- That more is logged. -/
  | verbose
  /-- That nothing is reported. -/
  | quiet
  /-- That a failure of a project is a failure of the command. -/
  | strict
  /-- The languages of import analysis. -/
  | languages
  /-- That an import is kept only where it occurs first. -/
  | distinct
  /-- That imports of packages of the project are kept. -/
  | keepProjectPackages
  /-- That builds are looked for in nested directories. -/
  | resolveRoot
  /-- That help is shown. -/
  | help
  deriving DecidableEq, Repr

/-- What follows an option. -/
inductive OptionValue where
  /-- Nothing. -/
  | absent
  /-- A text. -/
  | text
  /-- A path, which is not empty. -/
  | path
  /-- A number. -/
  | number
  /-- Texts separated by commas; the option may be given several times. -/
  | texts
  deriving DecidableEq, Repr

namespace CommandOption

/-- What follows an option. -/
def value : CommandOption → OptionValue
  | outputDirectory | config | summary => .path
  | fileName | format | mode => .text
  | jobs | timeout => .number
  | languages => .texts
  | _ => .absent

/-- The name of an option behind two hyphens. -/
def longName : CommandOption → String
  | outputDirectory => "output-dir"
  | fileName => "file-name"
  | format => "format"
  | mode => "mode"
  | jobs => "jobs"
  | timeout => "timeout"
  | parallelUnits => "parallel-units"
  | config => "config"
  | summary => "summary"
  | verbose => "verbose"
  | quiet => "quiet"
  | strict => "strict"
  | languages => "languages"
  | distinct => "distinct"
  | keepProjectPackages => "keep-project-packages"
  | resolveRoot => "resolve-root"
  | help => "help"

/-- The letter of an option behind one hyphen, if it has one. -/
def shortName? : CommandOption → Option Char
  | outputDirectory => some 'o'
  | format => some 'f'
  | mode => some 'm'
  | jobs => some 'j'
  | config => some 'c'
  | verbose => some 'v'
  | quiet => some 'q'
  | languages => some 'l'
  | help => some 'h'
  | _ => none

end CommandOption

namespace Command

/-- The options that every command takes. -/
def sharedOptions : List CommandOption :=
  [.outputDirectory, .fileName, .format, .mode, .jobs, .timeout, .parallelUnits, .config, .summary,
    .verbose, .quiet, .strict, .help]

/-- The options that a command takes. -/
def options : Command → List CommandOption
  | imports => sharedOptions ++ [.languages, .distinct, .keepProjectPackages]
  | tag => sharedOptions ++ [.resolveRoot]
  | _ => sharedOptions

/-- The option of a command with a long name. -/
def longOption? (command : Command) (name : String) : Option CommandOption :=
  command.options.find? (·.longName == name)

/-- The option of a command with a letter. -/
def shortOption? (command : Command) (letter : Char) : Option CommandOption :=
  command.options.find? (·.shortName? == some letter)

end Command

end CorpusFacts.CommandLine
