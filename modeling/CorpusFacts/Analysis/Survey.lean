import CorpusFacts.Analysis.Finding
import CorpusFacts.Project.Total

/-!
# Surveys

A survey visits every node of a parsed file once, parents before children. Controllers keep a
context up to date: each is told when a node is entered and when its subtree is left. At every node
the analyzers that take its kind see the context and may yield a value or a problem. So findings are
in the order of the source, and at one node in the order of the analyzers. The way through the tree
is kept on a stack of steps.
-/

namespace CorpusFacts

/-- Reads values off the nodes of some kinds. -/
structure Analyzer (κ α : Type) where
  /-- Its name in findings and problems. -/
  name : String
  /-- The kinds of nodes it takes. -/
  kinds : List NodeKind
  /-- What it makes of a node: a value, nothing, or the reason why it should understand the node
  and does not. -/
  analyze : SourceUnit → κ → Node → Except String (Option α)

/-- Keeps a context up to date around the nodes of a tree. -/
structure Controller (κ : Type) where
  /-- The context inside a node. -/
  enter : SourceUnit → Node → κ → κ
  /-- The context after a node. -/
  leave : SourceUnit → Node → κ → κ

/-- One step of the way through a tree. -/
inductive Visit where
  /-- A node is reached. -/
  | enter (node : Node)
  /-- The subtree of a node lies behind. -/
  | leave (node : Node)

/-- The number of steps until the one that is on the stack, and all that it gives rise to, are
taken: there is one into every node and one out of it. -/
def Visit.stepCount : Visit → Nat
  | enter node => 2 * node.count
  | leave _ => 1

/-- A survey under way in a file. -/
structure Tour (κ α : Type) where
  /-- The steps that are known to lie ahead, the next one first. -/
  stack : List Visit
  /-- The context as the controllers have left it. -/
  context : κ
  /-- What was found so far. -/
  findings : Findings α

/-- The number of steps that are left to take. -/
def Tour.stepCount (tour : Tour κ α) : Nat :=
  totalOf Visit.stepCount tour.stack

/-- Analyzers with the controllers of their context. -/
structure Survey (κ α : Type) where
  /-- The context outside the tree. -/
  start : κ
  /-- The controllers, in the order they enter a node. -/
  controllers : List (Controller κ)
  /-- The analyzers, in order. -/
  analyzers : List (Analyzer κ α)

namespace Analyzer

/-- What one analyzer finds at one node. -/
def findings (analyzer : Analyzer κ α) (unit : SourceUnit) (context : κ) (node : Node) :
    Findings α :=
  if !analyzer.kinds.contains node.kind then .empty
  else
    match analyzer.analyze unit context node with
    | .ok (some value) => ⟨[⟨analyzer.name, unit.relativePath, unit.module, node.line, value⟩], []⟩
    | .ok none => .empty
    | .error message => ⟨[], [⟨analyzer.name, unit.relativePath, node.line, message⟩]⟩

end Analyzer

namespace Survey

/-- The context inside a node: every controller enters it, in order. -/
def entered (survey : Survey κ α) (unit : SourceUnit) (node : Node) (context : κ) : κ :=
  survey.controllers.foldl (fun context controller => controller.enter unit node context) context

/-- The context after a node: every controller leaves it, in reverse order. -/
def left (survey : Survey κ α) (unit : SourceUnit) (node : Node) (context : κ) : κ :=
  survey.controllers.foldr (fun controller context => controller.leave unit node context) context

/-- What all analyzers find at one node. -/
def findingsAt (survey : Survey κ α) (unit : SourceUnit) (context : κ) (node : Node) : Findings α :=
  .join (survey.analyzers.map fun analyzer => analyzer.findings unit context node)

/-- A survey before its first step. -/
def outset (survey : Survey κ α) (unit : SourceUnit) : Tour κ α where
  stack := [.enter unit.root]
  context := survey.start
  findings := .empty

/-- A survey after its next step; none where there is no step left. A node that is reached leaves
the way out of it on the stack and, pushed from the last to the first, the ways into its
children. -/
def next? (survey : Survey κ α) (unit : SourceUnit) (tour : Tour κ α) : Option (Tour κ α) :=
  match tour.stack with
  | [] => none
  | .enter node :: rest =>
    let inside := survey.entered unit node tour.context
    some {
      stack := node.children.foldr (fun child stack => .enter child :: stack) (.leave node :: rest)
      context := inside
      findings := tour.findings ++ survey.findingsAt unit inside node }
  | .leave node :: rest =>
    some { tour with stack := rest, context := survey.left unit node tour.context }

/-- Every step leaves one step less to take. -/
theorem stepCount_next? {survey : Survey κ α} {unit : SourceUnit} {tour next : Tour κ α}
    (h : survey.next? unit tour = some next) : tour.stepCount = next.stepCount + 1 := by
  obtain ⟨stack, context, findings⟩ := tour
  match stack with
  | [] => cases h
  | .leave node :: rest =>
    cases h
    simp only [Tour.stepCount, totalOf, Visit.stepCount]
    omega
  | .enter (.mk _ _ _ _ _ children) :: rest =>
    cases h
    have hchildren (behind : List Visit) :
        totalOf Visit.stepCount (children.foldr (fun child stack => .enter child :: stack) behind) =
          2 * Node.countAll children + totalOf Visit.stepCount behind := by
      induction children with
      | nil => simp [Node.countAll]
      | cons child siblings ih =>
        simp only [List.foldr_cons, totalOf, ih, Visit.stepCount, Node.countAll]
        omega
    simp only [Tour.stepCount, Node.children, hchildren, totalOf, Visit.stepCount, Node.count]
    omega

/-- A survey after all its steps. -/
def finish (survey : Survey κ α) (unit : SourceUnit) (tour : Tour κ α) : Tour κ α :=
  match _h : survey.next? unit tour with
  | none => tour
  | some next => survey.finish unit next
termination_by tour.stepCount
decreasing_by
  have := stepCount_next? _h
  omega

/-- What is found in a file. -/
def collect (survey : Survey κ α) (unit : SourceUnit) : Findings α :=
  (survey.finish unit (survey.outset unit)).findings

/-- What is found in several files, in order. -/
def collectAll (survey : Survey κ α) (units : List SourceUnit) : Findings α :=
  .join (units.map survey.collect)

end Survey

end CorpusFacts
