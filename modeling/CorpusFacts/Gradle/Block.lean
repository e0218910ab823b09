import CorpusFacts.Analysis.Survey
import CorpusFacts.Script.Tree

/-!
# Blocks of build scripts

What a statement of a build script means depends on the blocks around it. The context of a
statement is the chain of these blocks, from the innermost one out, in which a block without a
meaning of its own is kept as `none`.
-/

namespace CorpusFacts.Gradle

/-- The blocks that change how statements are read. -/
inductive Block where
  /-- Declares dependencies. -/
  | dependencies
  /-- Declares plugins. -/
  | plugins
  /-- Configures the project and all projects below it. -/
  | allProjects
  /-- Configures all projects below. -/
  | subprojects
  /-- Declares repositories. -/
  | repositories
  /-- Configures the build script itself. -/
  | buildscript
  /-- Applies plugins. -/
  | apply
  deriving DecidableEq, Repr

namespace Block

/-- The name of a block, in lower case. -/
def key : Block → String
  | dependencies => "dependencies"
  | plugins => "plugins"
  | allProjects => "allprojects"
  | subprojects => "subprojects"
  | repositories => "repositories"
  | buildscript => "buildscript"
  | apply => "apply"

/-- Every block. -/
def all : List Block :=
  [dependencies, plugins, allProjects, subprojects, repositories, buildscript, apply]

/-- The block of a name, in whatever case it is written. -/
def ofName? (name : List Char) : Option Block :=
  all.find? fun block => block.key.toList == Text.asciiLower name

end Block

/-- The chain of blocks around a node. -/
structure BlockContext where
  /-- The blocks, innermost first. -/
  chain : List (Option Block)
  deriving DecidableEq, Repr

namespace BlockContext

/-- The context outside every block. -/
def outside : BlockContext := ⟨[]⟩

/-- The block directly around, if it has a meaning. -/
def current (context : BlockContext) : Option Block :=
  match context.chain with
  | [] => none
  | block :: _ => block

/-- The innermost block with a meaning. -/
def innermost (context : BlockContext) : Option Block :=
  context.chain.findSome? id

/-- Whether a block is somewhere around. -/
def within (context : BlockContext) (block : Block) : Bool :=
  context.chain.contains (some block)

/-- Whether what is declared holds for several projects. -/
def isForAllProjects (context : BlockContext) : Bool :=
  context.within .allProjects || context.within .subprojects

end BlockContext

/-- Keeps the chain of blocks around a node. -/
def blockController : Controller BlockContext where
  enter unit node context :=
    if node.kind == .block then
      ⟨(Script.blockName unit node).bind Block.ofName? :: context.chain⟩
    else context
  leave _ node context :=
    if node.kind == .block then ⟨context.chain.drop 1⟩ else context

end CorpusFacts.Gradle
