import CorpusFacts.Project.Finder

/-!
# Modules of a project

The root of a project lists modules, and each module may list more. A directory counts once, however
it is spelled, and a directory outside the boundary of the project does not count. Every step into a
module visits a new directory, so the number of directories bounds how deep modules can nest.
-/

namespace CorpusFacts

/-- The module path that a listed path stands for: its parts between slashes of either kind, without
empty ones and dots; none where nothing is left. -/
def modulePath? (listed : String) : Option String :=
  let parts := (Text.splitWhere (fun c => c == '/' || c == '\\') listed.toList).filter
    fun part => part != [] && part != ['.']
  if parts.isEmpty then none else some (String.ofList (['/'].intercalate parts))

/-- What is known of the modules of a project. -/
structure Expansion where
  /-- The locations of the directories visited, the root of the project included. -/
  visited : List (List String)
  /-- The modules found, in order. -/
  modules : List Module

namespace ProjectFinder

/-- The location of a directory. -/
def location (tree : FileTree) (path : Path) : Except ProjectError (List String) :=
  (tree.canonical path).mapError (.unresolved path)

/-- What one listed path adds: nothing if it leaves the boundary or was visited; otherwise a module,
and then all that `inside` finds in it. -/
def addListed (tree : FileTree) (boundary : List String) (directory : Path) (module : String)
    (inside : Path → String → Expansion → Except ProjectError Expansion)
    (known : Expansion) (listed : String) : Except ProjectError Expansion :=
  match modulePath? listed with
  | none => .ok known
  | some path => do
    let candidate := directory.join path
    if !tree.isDirectory candidate then .error (.missingModule candidate listed)
    let resolved ← location tree candidate
    if !boundary.isPrefixOf resolved || known.visited.contains resolved then return known
    let relative := joinRelative module path
    inside candidate relative
      ⟨resolved :: known.visited, known.modules ++ [⟨relative, candidate⟩]⟩

/-- What a directory and the modules in it add, at most `depth` levels deep. -/
def expandFrom (finder : ProjectFinder) (tree : FileTree) (boundary : List String) :
    (depth : Nat) → Path → String → Expansion → Except ProjectError Expansion
  | 0, _, _, known => .ok known
  | depth + 1, directory, module, known => do
    let listed ← (finder.lister tree directory).mapError .unparsed
    listed.foldlM (addListed tree boundary directory module
      (finder.expandFrom tree boundary depth)) known

/-- A project with its modules. -/
def expandModules (finder : ProjectFinder) (tree : FileTree) (project : Project) :
    Except ProjectError Project := do
  let root ← location tree project.root
  let boundary ← location tree project.boundary
  let expansion ← finder.expandFrom tree boundary (tree.root.directoryCount + 1) project.root
    rootModule ⟨[root], []⟩
  return { project with modules := expansion.modules }

end ProjectFinder

end CorpusFacts
