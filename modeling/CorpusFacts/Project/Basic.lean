import CorpusFacts.Files.Path

/-!
# Projects

A project is a directory with a name and, where its build says so, modules in directories of their
own. Its boundary is the directory that no module may lie outside of.
-/

namespace CorpusFacts

/-- A part of a project with a directory of its own. -/
structure Module where
  /-- The path of the module in its project, with slashes. -/
  relative : String
  /-- The directory of the module. -/
  root : Path
  deriving DecidableEq, Repr

/-- What a project turns out to be. -/
inductive ProjectTag where
  /-- A project built with the Android plugins. -/
  | android
  /-- Any other project. -/
  | other
  deriving DecidableEq, Repr

namespace ProjectTag

/-- The name of a tag. -/
def name : ProjectTag → String
  | android => "android"
  | other => "other"

end ProjectTag

/-- A project of a corpus. -/
structure Project where
  /-- The name that its results are filed under. -/
  name : String
  /-- The directory of the project. -/
  root : Path
  /-- The directory that its modules must lie in. -/
  boundary : Path
  /-- The modules, in the order the build lists them. -/
  modules : List Module
  /-- What the project is, once that is known. -/
  tag : Option ProjectTag
  deriving DecidableEq, Repr

/-- The module path of the root of a project. -/
def rootModule : String := "."

namespace Project

/-- A project without modules, bounded by its own directory. -/
def ofRoot (name : String) (root : Path) : Project :=
  ⟨name, root, root, [], none⟩

/-- Whether a project has modules. -/
def isComposite (project : Project) : Bool :=
  !project.modules.isEmpty

/-- The module paths of a project with their directories, the root first. -/
def moduleRoots (project : Project) : List (String × Path) :=
  (rootModule, project.root) :: project.modules.map fun module => (module.relative, module.root)

end Project

end CorpusFacts
