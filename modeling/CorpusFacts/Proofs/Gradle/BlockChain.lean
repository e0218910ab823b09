import CorpusFacts.Gradle.Dependencies
import CorpusFacts.Proofs.Analysis.Calls

/-!
# Enclosing blocks

What a statement of a build script means depends on the blocks it stands in: the node itself and
those above it, as far as they are blocks. A survey does not look up, but the context that it keeps
is always the chain of these blocks. So dependencies are declared exactly where the nearest block
with a meaning is one of dependencies.
-/

namespace CorpusFacts

/-- A node of a tree with the nodes above it, from its parent to the root. -/
structure Place where
  /-- The node. -/
  node : Node
  /-- The nodes above. -/
  above : List Node

/-- A node and those above it, the node first. -/
def Place.chain (place : Place) : List Node :=
  place.node :: place.above

mutual

/-- The places of a tree that stands below some nodes, in preorder. -/
def Node.placesBelow (above : List Node) : Node → List Place
  | node@(.mk _ _ _ _ _ children) => ⟨node, above⟩ :: placesOfAll (node :: above) children

/-- The places of some siblings below some nodes, in preorder. -/
def Node.placesOfAll (above : List Node) : List Node → List Place
  | [] => []
  | node :: siblings => node.placesBelow above ++ placesOfAll above siblings

end

/-- The places of a tree, in preorder. -/
def Node.places (root : Node) : List Place :=
  root.placesBelow []

mutual

/-- The places of a tree are its nodes in preorder. -/
theorem Node.map_node_placesBelow (above : List Node) : (node : Node) →
    (node.placesBelow above).map Place.node = listed [node]
  | .mk kind role start stop line children => by
    have hbelow := map_node_placesOfAll (.mk kind role start stop line children :: above) children
    simp [placesBelow, listed_cons, hbelow, Node.children]

/-- The places of some siblings are the nodes in their preorders. -/
theorem Node.map_node_placesOfAll (above : List Node) : (nodes : List Node) →
    (placesOfAll above nodes).map Place.node = listed nodes
  | [] => rfl
  | node :: siblings => by
    have hnode := map_node_placesBelow above node
    have hsiblings := map_node_placesOfAll above siblings
    simp [placesOfAll, hnode, hsiblings]

end

namespace Gradle

variable (unit : SourceUnit)

/-- The meaning of a block, if its name has one. -/
def meaning? (block : Node) : Option Block :=
  (Script.blockName unit block).bind Block.ofName?

/-- The blocks among some nodes by their meanings. -/
def blocksAmong (nodes : List Node) : List (Option Block) :=
  (nodes.filter (·.kind == .block)).map (meaning? unit)

/-- The nearest block with a meaning among some nodes. -/
def nearestBlock? (nodes : List Node) : Option Block :=
  nodes.findSome? fun node => if node.kind = .block then meaning? unit node else none

/-- Whether a node is a block that configures several projects. -/
def IsForAllProjects (node : Node) : Prop :=
  node.kind = .block ∧
    (meaning? unit node = some .allProjects ∨ meaning? unit node = some .subprojects)

instance : DecidablePred (IsForAllProjects unit) :=
  fun _ => inferInstanceAs (Decidable (_ ∧ _))

/-- The text that a node may declare dependencies by: that of a statement, or of the header of a
block. -/
def declaration? (node : Node) : Option (List Char) :=
  match node.kind with
  | .statement => some (unit.text node)
  | .block => (node.childOfKind? .blockHeader).map unit.text
  | _ => none

/-- The dependencies that are declared at a place. -/
def declaredAt (place : Place) : List DependencyRecord :=
  if nearestBlock? unit place.chain = some .dependencies then
    match (declaration? unit place.node).map declaration with
    | some (.ok coordinates) =>
      coordinates.map (·.record unit.module (∃ node ∈ place.chain, IsForAllProjects unit node))
    | _ => []
  else []

/-- A survey of blocks: some analyzers in the context of the enclosing blocks. -/
def blockSurvey (analyzers : List (Analyzer BlockContext α)) : Survey BlockContext α :=
  ⟨.outside, [blockController], analyzers⟩

variable {unit}

theorem blocksAmong_cons (node : Node) (above : List Node) :
    blocksAmong unit (node :: above) =
      if node.kind = .block then meaning? unit node :: blocksAmong unit above
      else blocksAmong unit above := by
  simp only [blocksAmong, List.filter_cons, beq_iff_eq]
  split_ifs <;> rfl

/-- A survey enters a node by adding it to the chain, if it is a block. -/
theorem entered_blockSurvey (analyzers : List (Analyzer BlockContext α)) (unit : SourceUnit)
    (node : Node) (above : List Node) :
    (blockSurvey analyzers).entered unit node ⟨blocksAmong unit above⟩ =
      ⟨blocksAmong unit (node :: above)⟩ := by
  simp only [blockSurvey, Survey.entered, blockController, List.foldl_cons, List.foldl_nil,
    blocksAmong_cons, beq_iff_eq]
  split_ifs <;> rfl

/-- Behind a node the chain is the one before it. -/
theorem left_blockSurvey (analyzers : List (Analyzer BlockContext α)) (unit : SourceUnit)
    (node : Node) (above : List Node) :
    (blockSurvey analyzers).left unit node ⟨blocksAmong unit (node :: above)⟩ =
      ⟨blocksAmong unit above⟩ := by
  simp only [blockSurvey, Survey.left, blockController, List.foldr_cons, List.foldr_nil,
    blocksAmong_cons, beq_iff_eq]
  split_ifs <;> rfl

section Survey

variable {analyzers : List (Analyzer BlockContext α)}

mutual

/-- On the way through a tree the context is the chain of blocks around, and behind the tree it is
what it was before. -/
theorem reached_placesBelow (above : List Node) : (node : Node) →
    ((blockSurvey analyzers).stepsAlong unit ⟨blocksAmong unit above⟩ node.visits).filterMap
        ((blockSurvey analyzers).reached? unit) =
      (node.placesBelow above).map (fun place => (place.node, ⟨blocksAmong unit place.chain⟩)) ∧
    node.visits.foldl ((blockSurvey analyzers).behind unit) ⟨blocksAmong unit above⟩ =
      ⟨blocksAmong unit above⟩
  | .mk kind role start stop line children => by
    obtain ⟨hbelow, hafter⟩ :=
      reached_placesOfAll (.mk kind role start stop line children :: above) children
    have hinside :=
      entered_blockSurvey analyzers unit (.mk kind role start stop line children) above
    have hreached : (blockSurvey analyzers).reached? unit
        (.enter (.mk kind role start stop line children), ⟨blocksAmong unit above⟩) =
          some (_, _) := congrArg (fun inside => some (_, inside)) hinside
    constructor
    -- the children find the chain with their parent, and leave it to the parent, who takes it back
    · rw [Node.visits, Survey.stepsAlong, Survey.behind, hinside, Survey.stepsAlong_append,
        List.filterMap_cons_some hreached, List.filterMap_append, hbelow]
      exact congrArg (_ :: ·) (List.append_nil _)
    · rw [Node.visits, List.foldl_cons, Survey.behind, hinside, List.foldl_append, hafter]
      exact left_blockSurvey analyzers unit (.mk kind role start stop line children) above

/-- On the way through some siblings the context is the chain of blocks around, and behind them it
is what it was before. -/
theorem reached_placesOfAll (above : List Node) : (nodes : List Node) →
    ((blockSurvey analyzers).stepsAlong unit ⟨blocksAmong unit above⟩
          (Node.visitsOfAll nodes)).filterMap ((blockSurvey analyzers).reached? unit) =
      (Node.placesOfAll above nodes).map
        (fun place => (place.node, ⟨blocksAmong unit place.chain⟩)) ∧
    (Node.visitsOfAll nodes).foldl ((blockSurvey analyzers).behind unit) ⟨blocksAmong unit above⟩ =
      ⟨blocksAmong unit above⟩
  | [] => ⟨rfl, rfl⟩
  | node :: siblings => by
    obtain ⟨hnode, hbehind⟩ := reached_placesBelow above node
    obtain ⟨hsiblings, hafter⟩ := reached_placesOfAll above siblings
    constructor
    · rw [Node.visitsOfAll, Survey.stepsAlong_append, List.filterMap_append, hnode, hbehind,
        hsiblings, Node.placesOfAll, List.map_append]
    · rw [Node.visitsOfAll, List.foldl_append, hbehind, hafter]

end

end Survey

/-- At each node that a survey reaches the context is the chain of the blocks among the node and
those above it. -/
theorem reached_blockSurvey (analyzers : List (Analyzer BlockContext α)) (unit : SourceUnit) :
    (blockSurvey analyzers).reached unit =
      unit.root.places.map fun place => (place.node, ⟨blocksAmong unit place.chain⟩) := by
  rw [Survey.reached, Survey.steps_eq]
  exact (reached_placesBelow [] unit.root).1

theorem innermost_blocksAmong (nodes : List Node) :
    (⟨blocksAmong unit nodes⟩ : BlockContext).innermost = nearestBlock? unit nodes := by
  induction nodes with
  | nil => rfl
  | cons node above ih =>
    rw [BlockContext.innermost] at ih ⊢
    rw [blocksAmong_cons, nearestBlock?, List.findSome?_cons, ← nearestBlock?, ← ih]
    split_ifs <;> rfl

theorem mem_blocksAmong {nodes : List Node} {block : Block} :
    some block ∈ blocksAmong unit nodes ↔
      ∃ node ∈ nodes, node.kind = .block ∧ meaning? unit node = some block := by
  simp [blocksAmong, and_assoc]

theorem isForAllProjects_blocksAmong (nodes : List Node) :
    (⟨blocksAmong unit nodes⟩ : BlockContext).isForAllProjects =
      decide (∃ node ∈ nodes, IsForAllProjects unit node) := by
  rw [Bool.eq_iff_iff, decide_eq_true_iff]
  simp only [BlockContext.isForAllProjects, BlockContext.within, Bool.or_eq_true,
    List.contains_iff_mem, mem_blocksAmong, IsForAllProjects, and_or_left, exists_or]

/-- A node declares by a text where the dependency analyzer takes it and there is such a text. -/
theorem declaration?_eq (unit : SourceUnit) (node : Node) :
    declaration? unit node =
      if dependencyAnalyzer.kinds.contains node.kind then declaringText? unit node else none := by
  simp only [declaration?, declaringText?, dependencyAnalyzer]
  cases node.kind <;> rfl

/-- What the dependency analyzer finds at a place, declaration by declaration. -/
theorem values_dependencyAnalyzer (unit : SourceUnit) (place : Place) :
    ((dependencyAnalyzer.findings unit ⟨blocksAmong unit place.chain⟩ place.node).flatMap
        id).values =
      (declaredAt unit place).map fun record =>
        ⟨"gradle-dependency", unit.relativePath, unit.module, place.node.line, record⟩ := by
  have hinnermost : (⟨blocksAmong unit place.chain⟩ : BlockContext).innermost =
      nearestBlock? unit place.chain := innermost_blocksAmong _
  have hforAll : (⟨blocksAmong unit place.chain⟩ : BlockContext).isForAllProjects =
      decide (∃ node ∈ place.chain, IsForAllProjects unit node) := isForAllProjects_blocksAmong _
  unfold Analyzer.findings declaredAt
  rw [declaration?_eq]
  cases htaken : dependencyAnalyzer.kinds.contains place.node.kind with
  | false => simp [Findings.flatMap, Findings.empty]
  | true =>
    simp only [dependencyAnalyzer, hinnermost, hforAll]
    by_cases hblock : nearestBlock? unit place.chain = some .dependencies
    · cases declaringText? unit place.node with
      | none => simp [hblock, Findings.flatMap, Findings.empty]
      | some text =>
        rcases hdeclared : declaration text with error | _ | ⟨coordinates, more⟩
        · simp [hblock, hdeclared, Findings.flatMap]
        · simp [hblock, hdeclared, Findings.flatMap, Findings.empty]
        · simp [hblock, hdeclared, Findings.flatMap, Finding.map]
    · simp [hblock, Findings.flatMap, Findings.empty]

/-- The context of a survey of blocks is the chain of enclosing blocks: at each node that is reached
it tells the blocks among the node and those above it by their meanings, the innermost first, and at
the end of the survey it is empty. So the dependencies of a script are, in preorder, those that are
declared by the statements and block headers whose nearest block with a meaning is one of
dependencies, for all projects where some block among the node and those above it is for several. -/
theorem dependencies_in_nearest_block (analyzers : List (Analyzer BlockContext α))
    (unit : SourceUnit) :
    (blockSurvey analyzers).reached unit =
        unit.root.places.map (fun place => (place.node, ⟨blocksAmong unit place.chain⟩)) ∧
      unit.root.places.map Place.node = unit.preorder ∧
      ((blockSurvey analyzers).finish unit ((blockSurvey analyzers).outset unit)).context =
        .outside ∧
      (dependenciesOf unit).values =
        match unit.language with
        | .kotlin | .groovy =>
          unit.root.places.flatMap fun place => (declaredAt unit place).map fun record =>
            ⟨"gradle-dependency", unit.relativePath, unit.module, place.node.line, record⟩
        | _ => [] := by
  have hvalues : ((dependencySurvey.collect unit).flatMap id).values =
      unit.root.places.flatMap fun place => (declaredAt unit place).map fun record =>
        ⟨"gradle-dependency", unit.relativePath, unit.module, place.node.line, record⟩ := by
    have hreached := reached_blockSurvey [dependencyAnalyzer] unit
    rw [show dependencySurvey = blockSurvey [dependencyAnalyzer] from rfl,
      Survey.collect_eq_join_reached, hreached, List.map_map, Findings.values_flatMap_join,
      List.flatMap_map]
    refine List.flatMap_congr fun place _ => ?_
    rw [← values_dependencyAnalyzer]
    exact congrArg (fun found => (Findings.flatMap id found).values) (Findings.append_empty _)
  refine ⟨reached_blockSurvey analyzers unit, ?_, ?_, ?_⟩
  · rw [SourceUnit.preorder, Node.unstack_eq_listed]
    exact Node.map_node_placesBelow [] unit.root
  · rw [Survey.finish_eq, Survey.ahead_outset]
    exact (reached_placesBelow [] unit.root).2
  · unfold dependenciesOf
    cases unit.language with
    | kotlin => exact hvalues
    | groovy => exact hvalues
    | _ => rfl

end Gradle

end CorpusFacts
