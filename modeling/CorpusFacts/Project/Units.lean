import CorpusFacts.Project.Modules

/-!
# Files of a project

The files that an analysis reads: all sources, or named files. The root of the project comes first,
then its modules; inside each of them sources are in order of their paths.
-/

namespace CorpusFacts

/-- A file to be read. -/
structure AnalysisUnit where
  /-- Where it is. -/
  path : Path
  /-- Its path in the project. -/
  relativePath : String
  /-- The module it belongs to. -/
  module : String
  /-- Whether the project fails if it cannot be parsed. -/
  isMandatory : Bool
  deriving DecidableEq, Repr

namespace ProjectFinder

/-- Whether a walk for the sources of a module goes into what it meets. It goes past what is left
out, hidden directories, the output of builds and other modules; in a project with modules also past
projects that are none of them. -/
def enters (finder : ProjectFinder) (tree : FileTree) (project : Project) (module : String)
    (met : Met) : Bool :=
  if finder.excluded.contains (joinRelative module ("/".intercalate met.names)) then false
  else if !met.entry.isDirectory then true
  else if !met.names.getLast?.any mayHoldSources then false
  else if project.modules.any fun module => module.root.sameAs met.path then false
  else !(project.isComposite && finder.hasMarker tree met.path)

/-- The extension of a path; empty where it has none. -/
def extensionOf (path : Path) : String :=
  String.ofList (path.extension?.getD [])

/-- The sources of one module. -/
def moduleSources (finder : ProjectFinder) (tree : FileTree) (project : Project)
    (extensions : List String) (module : String) (root : Path) :
    Except ProjectError (List AnalysisUnit) := do
  let met ← (tree.walk (finder.enters tree project module) root).mapError (.walk root)
  let sources := met.filter fun met =>
    met.entry.isFile && extensions.contains (extensionOf met.path)
  return sources.map fun met =>
    ⟨met.path, joinRelative module ("/".intercalate met.names), module, false⟩

/-- The sources of a project. -/
def sources (finder : ProjectFinder) (tree : FileTree) (project : Project)
    (extensions : List String) : Except ProjectError (List AnalysisUnit) := do
  let units ← project.moduleRoots.mapM fun (module, root) =>
    finder.moduleSources tree project extensions module root
  return units.flatten

/-- The files with some names in a module, in order of the names. -/
def moduleDescriptors (tree : FileTree) (names : List String) (module : String) (root : Path) :
    List AnalysisUnit :=
  (names.filter fun name => tree.isFile (root.join name)).map fun name =>
    ⟨root.join name, joinRelative module name, module, module == rootModule⟩

/-- The files with some names in a project; those of its root are mandatory. -/
def descriptors (tree : FileTree) (project : Project) (names : List String)
    (inModules required : Bool) : Except ProjectError (List AnalysisUnit) :=
  let roots := if inModules then project.moduleRoots else [(rootModule, project.root)]
  let units := roots.flatMap fun (module, root) => moduleDescriptors tree names module root
  if required && units.isEmpty then .error (.missingDescriptor project.root names) else .ok units

/-- The files of a project in a scope. -/
def units (finder : ProjectFinder) (tree : FileTree) (project : Project) :
    UnitScope → Except ProjectError (List AnalysisUnit)
  | .sources extensions => finder.sources tree project extensions
  | .descriptors names inModules required => descriptors tree project names inModules required

end ProjectFinder

end CorpusFacts
