import CorpusFacts.Gradle.Dependencies
import CorpusFacts.Project.Finder

/-!
# Builds in nested directories

The build of a project may lie in a directory of its own, inside directories that contain nothing
else. It is looked for as long as there is exactly one directory to go into, a few levels deep.
-/

namespace CorpusFacts

/-- The most levels that a build is looked for below a directory. -/
def maxNesting : Nat := 8

/-- Whether a directory has a build script. -/
def hasBuildScript (tree : FileTree) (directory : Path) : Bool :=
  Gradle.buildScripts.any fun name => tree.isFile (directory.join name)

/-- The directories directly in a directory that may hold sources. -/
def sourceDirectories (tree : FileTree) (directory : Path) : List Path :=
  ((ProjectFinder.visibleDirectories tree directory).filter mayHoldSources).map directory.join

/-- The first directory with a build script on the way down from a directory, at most `levels`
levels below it. -/
def buildRootBelow? (tree : FileTree) : (levels : Nat) → Path → Option Path
  | 0, _ => none
  | levels + 1, directory =>
    match sourceDirectories tree directory with
    | [only] => if hasBuildScript tree only then some only else buildRootBelow? tree levels only
    | _ => none

/-- The directory of the build inside a directory without a build script of its own. -/
def buildRoot? (tree : FileTree) (nominal : Path) : Option Path :=
  if hasBuildScript tree nominal then none else buildRootBelow? tree maxNesting nominal

end CorpusFacts
