import CorpusFacts.Config.RunConfig
import CorpusFacts.Files.Walk
import CorpusFacts.Gradle.IncludedModules
import CorpusFacts.Project.Error

/-!
# Finding projects

A directory is a project if one of the marker files lies directly in it. A corpus is one project or
a directory of projects.
-/

namespace CorpusFacts

/-- How the modules that a directory lists are found. -/
abbrev ModuleLister := FileTree → Path → Except ParseError (List String)

/-- A lister for builds without modules. -/
def noModules : ModuleLister := fun _ _ => .ok []

/-- Finds projects in a corpus, and modules and files in a project. -/
structure ProjectFinder where
  /-- The names of the files that mark a project. -/
  markers : List String
  /-- The paths that are left out. -/
  excluded : Glob.Globs
  /-- How modules are found. -/
  lister : ModuleLister

/-- Directories that are never searched for sources. -/
def skippedDirectories : List String :=
  ["build", "out", "target", "node_modules", ".gradle", "__pycache__", "venv", ".venv"]

/-- Whether a name is hidden: it starts with a dot. -/
def isHidden (name : String) : Bool :=
  name.toList.head? == some '.'

/-- Whether a directory of this name may hold sources. -/
def mayHoldSources (name : String) : Bool :=
  !isHidden name && !skippedDirectories.contains name

/-- The name of a directory: the last name of its path, or of the path it stands for, or else its
path. -/
def directoryName (tree : FileTree) (path : Path) : String :=
  match path.fileName? with
  | some name => String.ofList name
  | none =>
    match tree.canonical path with
    | .ok location => location.getLast?.getD path.text
    | .error _ => path.text

/-- A path inside a module as a path in the project. -/
def joinRelative (module rest : String) : String :=
  if module == rootModule || module.isEmpty then rest
  else if rest.isEmpty then module
  else module ++ "/" ++ rest

/-- The project of a directory, named after it. -/
def Project.ofDirectory (tree : FileTree) (root : Path) : Project :=
  .ofRoot (directoryName tree root) root

namespace ProjectFinder

/-- The finder of a run: modules are found in settings scripts. -/
def ofConfig (config : RunConfig) : Except ConfigError ProjectFinder :=
  config.exclusions.map fun excluded => ⟨config.markers, excluded, Gradle.listedModules⟩

/-- Whether a directory has a marker. -/
def hasMarker (finder : ProjectFinder) (tree : FileTree) (directory : Path) : Bool :=
  finder.markers.any fun marker => tree.isFile (directory.join marker)

/-- The visible directories directly in a directory, links not counted. -/
def visibleDirectories (tree : FileTree) (directory : Path) : List String :=
  match tree.entries directory with
  | .error _ => []
  | .ok entries =>
    (entries.filter fun (name, entry) => entry.isDirectory && !isHidden name).map (·.1)

/-- Whether a corpus is one project. -/
def isSingle (finder : ProjectFinder) (tree : FileTree) (corpus : Path) : RunMode → Bool
  | .single => true
  | .batch => false
  | .auto => finder.hasMarker tree corpus

/-- The projects of a corpus, sorted by name. Directories without a marker count too if `accept`
says so. -/
def discover (finder : ProjectFinder) (tree : FileTree) (accept : Path → Bool) (corpus : Path)
    (mode : RunMode) : List Project :=
  if finder.isSingle tree corpus mode then [.ofDirectory tree corpus]
  else
    (visibleDirectories tree corpus).filterMap fun name =>
      let directory := corpus.join name
      if finder.hasMarker tree directory || accept directory then some (.ofRoot name directory)
      else none

end ProjectFinder

end CorpusFacts
