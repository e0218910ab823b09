import CorpusFacts.Proofs.Analysis.Traversal
import CorpusFacts.Proofs.Syntax.Nodes
import Mathlib.Data.List.FinRange

/-!
# The calls that a survey makes

On its way a survey calls controllers and analyzers. Which it calls, in which order and in which
context, is told by recursion over the tree, without a stack: at a node all controllers enter it,
then the analyzers that take it look at it, then the same is done for its children, and then the
controllers leave it, the last one first. An analyzer has no part in what the others are called
with, so what it finds is what it finds alone.
-/

namespace CorpusFacts

/-- The node that a step leads into. -/
def Visit.entered? : Visit → Option Node
  | enter node => some node
  | leave _ => none

/-- A call of a controller or analyzer, by its place in the list of its kind, with the node and the
context that it is given. -/
inductive Call (κ α : Type) where
  /-- A controller enters a node. -/
  | opens (place : Nat) (node : Node) (context : κ)
  /-- An analyzer looks at a node. -/
  | asks (place : Nat) (node : Node) (context : κ) (found : Findings α)
  /-- A controller leaves a node. -/
  | closes (place : Nat) (node : Node) (context : κ)

namespace Call

/-- What a call finds. -/
def found : Call κ α → Findings α
  | asks _ _ _ found => found
  | _ => .empty

end Call

namespace Survey

variable (survey : Survey κ α) (unit : SourceUnit)

/-- The calls of all controllers on the way into a node. -/
def openings (node : Node) (context : κ) : List (Call κ α) :=
  (List.range survey.controllers.length).map fun place =>
    .opens place node ((survey.controllers.take place).foldl
      (fun context controller => controller.enter unit node context) context)

/-- The calls of the analyzers that take a node, in a context. -/
def questions (node : Node) (context : κ) : List (Call κ α) :=
  ((List.finRange survey.analyzers.length).filter fun place =>
    survey.analyzers[place].kinds.contains node.kind).map fun place : Fin _ =>
      .asks place node context (survey.analyzers[place].findings unit context node)

/-- The calls of all controllers on the way out of a node. -/
def closings (node : Node) (context : κ) : List (Call κ α) :=
  (List.range survey.controllers.length).reverse.map fun place =>
    .closes place node ((survey.controllers.drop (place + 1)).foldr
      (fun controller context => controller.leave unit node context) context)

/-- The calls at a step. -/
def callsOn (context : κ) : Visit → List (Call κ α)
  | .enter node =>
    survey.openings unit node context
      ++ survey.questions unit node (survey.entered unit node context)
  | .leave node => survey.closings unit node context

/-- The steps of a survey from its first to its last, each with the context it is taken in. -/
def steps : List (Visit × κ) :=
  (survey.tours unit (survey.outset unit)).filterMap Tour.step?

/-- The calls of a survey from its first step to its last. -/
def calls : List (Call κ α) :=
  (survey.steps unit).flatMap fun (visit, context) => survey.callsOn unit context visit

/-- The node that a step leads into, with the context that the analyzers see there. -/
def reached? (step : Visit × κ) : Option (Node × κ) :=
  step.1.entered?.map fun node => (node, survey.entered unit node step.2)

/-- The nodes that a survey reaches, from its first step to its last, each with the context that the
analyzers see there. -/
def reached : List (Node × κ) :=
  (survey.steps unit).filterMap (survey.reached? unit)

mutual

/-- The calls for a tree, by recursion, and the context behind them. -/
def callsIn (context : κ) : Node → List (Call κ α) × κ
  | node@(.mk _ _ _ _ _ children) =>
    let inside := survey.entered unit node context
    let (below, after) := callsInAll inside children
    (survey.openings unit node context ++ survey.questions unit node inside ++ below
      ++ survey.closings unit node after, survey.left unit node after)

/-- The calls for some siblings, by recursion, and the context behind them. -/
def callsInAll (context : κ) : List Node → List (Call κ α) × κ
  | [] => ([], context)
  | node :: siblings =>
    let (calls, between) := callsIn context node
    let (more, after) := callsInAll between siblings
    (calls ++ more, after)

end

/-- The survey with one of its analyzers only. -/
def alone (place : Fin survey.analyzers.length) : Survey κ α :=
  { survey with analyzers := [survey.analyzers[place]] }

end Survey

namespace Findings

/-- Several values in place of each one are those in place of the values of each part. -/
theorem values_flatMap_join (parts : List (Findings α)) (values : α → List β) :
    ((join parts).flatMap values).values =
      parts.flatMap fun part => (part.flatMap values).values := by
  induction parts with
  | nil => rfl
  | cons part parts ih =>
    rw [List.flatMap_cons, ← ih]
    exact List.flatMap_append

theorem join_eq_empty {parts : List (Findings α)} (h : ∀ part ∈ parts, part = empty) :
    join parts = empty := by
  induction parts with
  | nil => rfl
  | cons part parts ih =>
    obtain ⟨rfl, hparts⟩ := List.forall_mem_cons.1 h
    exact ih hparts

end Findings

/-- An analyzer finds nothing at a node that it does not take. -/
theorem Analyzer.findings_of_not_taken {analyzer : Analyzer κ α} {node : Node}
    (h : analyzer.kinds.contains node.kind = false) (unit : SourceUnit) (context : κ) :
    analyzer.findings unit context node = .empty := by
  rw [findings, h]
  rfl

namespace Survey

variable {survey : Survey κ α} {unit : SourceUnit}

/-- The steps of a survey are those on the way through the tree. -/
theorem steps_eq (survey : Survey κ α) (unit : SourceUnit) :
    survey.steps unit = survey.stepsAlong unit survey.start unit.root.visits := by
  rw [steps, filterMap_step?_tours, ahead_outset]
  rfl

theorem stepsAlong_append (context : κ) (first second : List Visit) :
    survey.stepsAlong unit context (first ++ second) =
      survey.stepsAlong unit context first ++
        survey.stepsAlong unit (first.foldl (survey.behind unit) context) second := by
  induction first generalizing context with
  | nil => rfl
  | cons visit first ih => rw [List.cons_append, stepsAlong, stepsAlong, ih]; rfl

/-- The nodes that are reached on a way do not depend on the context. -/
theorem map_fst_reached_stepsAlong (context : κ) (visits : List Visit) :
    ((survey.stepsAlong unit context visits).filterMap (survey.reached? unit)).map (·.1) =
      visits.filterMap Visit.entered? := by
  induction visits generalizing context with
  | nil => rfl
  | cons visit visits ih =>
    cases visit with
    | enter node => exact congrArg (node :: ·) (ih _)
    | leave node => exact ih _

/-- What is found on a way is what is found at the nodes reached. -/
theorem findingsAlong_eq_join_reached (context : κ) (visits : List Visit) :
    survey.findingsAlong unit context visits =
      .join (((survey.stepsAlong unit context visits).filterMap (survey.reached? unit)).map
        fun (node, inside) => survey.findingsAt unit inside node) := by
  induction visits generalizing context with
  | nil => rfl
  | cons visit visits ih =>
    rw [findingsAlong_cons, ih]
    cases visit <;> rfl

/-- What is found in a file is what is found at the nodes reached. -/
theorem collect_eq_join_reached (survey : Survey κ α) (unit : SourceUnit) :
    survey.collect unit =
      .join ((survey.reached unit).map fun (node, inside) =>
        survey.findingsAt unit inside node) := by
  rw [collect_eq, findingsAlong_eq_join_reached, reached, steps_eq]

mutual

/-- The calls on the way through a tree are those told by recursion. -/
theorem callsOn_visits (context : κ) : (node : Node) →
    ((survey.stepsAlong unit context node.visits).flatMap fun (visit, context) =>
        survey.callsOn unit context visit, node.visits.foldl (survey.behind unit) context) =
      survey.callsIn unit context node
  | .mk kind role start stop line children => by
    have hbelow := callsOn_visitsOfAll
      (survey.entered unit (.mk kind role start stop line children) context) children
    simp only [Node.visits, stepsAlong, stepsAlong_append, List.flatMap_cons, List.flatMap_append,
      List.foldl_cons, List.foldl_append, List.foldl_nil, callsIn, ← hbelow, behind, callsOn,
      List.flatMap_nil, List.append_nil, List.append_assoc]

/-- The calls on the way through some siblings are those told by recursion. -/
theorem callsOn_visitsOfAll (context : κ) : (nodes : List Node) →
    ((survey.stepsAlong unit context (Node.visitsOfAll nodes)).flatMap fun (visit, context) =>
        survey.callsOn unit context visit,
      (Node.visitsOfAll nodes).foldl (survey.behind unit) context) =
      survey.callsInAll unit context nodes
  | [] => rfl
  | node :: siblings => by
    have hnode := callsOn_visits context node
    have hsiblings := callsOn_visitsOfAll (node.visits.foldl (survey.behind unit) context) siblings
    simp only [Node.visitsOfAll, stepsAlong_append, List.flatMap_append, List.foldl_append,
      callsInAll, ← hnode, ← hsiblings]

end

end Survey

mutual

/-- The nodes reached on the way through a tree are listed. -/
theorem Node.filterMap_entered?_visits : (node : Node) →
    node.visits.filterMap Visit.entered? = listed [node]
  | .mk _ _ _ _ _ children => by
    have hbelow := filterMap_entered?_visitsOfAll children
    simp [visits, listed_cons, Visit.entered?, hbelow, Node.children]

/-- The nodes reached on the way through some siblings are listed. -/
theorem Node.filterMap_entered?_visitsOfAll : (nodes : List Node) →
    (visitsOfAll nodes).filterMap Visit.entered? = listed nodes
  | [] => rfl
  | node :: siblings => by
    have hnode := filterMap_entered?_visits node
    have hsiblings := filterMap_entered?_visitsOfAll siblings
    simp [visitsOfAll, hnode, hsiblings]

end

namespace Survey

variable {survey : Survey κ α} {unit : SourceUnit}

/-- The nodes that a survey reaches are the nodes in preorder. -/
theorem map_fst_reached (survey : Survey κ α) (unit : SourceUnit) :
    (survey.reached unit).map (·.1) = unit.preorder := by
  rw [reached, steps_eq, map_fst_reached_stepsAlong, SourceUnit.preorder, Node.unstack_eq_listed,
    Node.filterMap_entered?_visits]

end Survey

/-! ## What surveys find

A survey finds in a file what its analyzers find at the nodes that it reaches, each in the context
that it is reached in. Where there is only one context, this is what they find at the nodes.
-/

namespace Findings

/-- The values of some findings. -/
def contents (findings : Findings α) : List α :=
  findings.values.map (·.value)

@[simp] theorem contents_append (first next : Findings α) :
    (first ++ next).contents = first.contents ++ next.contents := by
  simp [contents]

@[simp] theorem contents_join (parts : List (Findings α)) :
    (join parts).contents = parts.flatMap contents := by
  induction parts with
  | nil => rfl
  | cons part parts ih =>
    rw [List.flatMap_cons, ← ih]
    exact contents_append part (join parts)

/-- What is found in some files is found in one of them. -/
theorem mem_contents_join {units : List SourceUnit} {collect : SourceUnit → Findings α}
    {value : α} : value ∈ (join (units.map collect)).contents ↔
      ∃ unit ∈ units, value ∈ (collect unit).contents := by
  rw [contents_join, List.flatMap_map, List.mem_flatMap]

@[simp] theorem contents_flatMap {β : Type} (f : α → List β) (findings : Findings α) :
    (findings.flatMap f).contents = findings.contents.flatMap f := by
  simp [contents, Findings.flatMap, List.map_flatMap, List.flatMap_map, Finding.map,
    Function.comp_def]

end Findings

/-- The value that an analyzer finds at a node, if it takes the node and understands it. -/
def Analyzer.value? (analyzer : Analyzer κ α) (unit : SourceUnit) (context : κ) (node : Node) :
    Option α :=
  if analyzer.kinds.contains node.kind then
    (analyzer.analyze unit context node).toOption.join
  else none

/-- An analyzer finds a value at a node that it takes and understands. -/
theorem Analyzer.value?_eq_some_iff {analyzer : Analyzer κ α} {unit : SourceUnit} {context : κ}
    {node : Node} {value : α} :
    analyzer.value? unit context node = some value ↔
      node.kind ∈ analyzer.kinds ∧ analyzer.analyze unit context node = .ok (some value) := by
  have hjoin (result : Except String (Option α)) :
      result.toOption.join = some value ↔ result = .ok (some value) := by
    rcases result with message | _ | found <;> simp [Except.toOption]
  rw [Analyzer.value?, Option.ite_none_right_eq_some, List.contains_iff_mem, hjoin]

/-- The values that an analyzer finds at a node. -/
theorem Analyzer.findings_contents (analyzer : Analyzer κ α) (unit : SourceUnit) (context : κ)
    (node : Node) :
    (analyzer.findings unit context node).contents =
      (analyzer.value? unit context node).toList := by
  unfold Analyzer.findings Analyzer.value?
  cases analyzer.kinds.contains node.kind with
  | false => rfl
  | true =>
    rcases analyzer.analyze unit context node with message | value
    · rfl
    · cases value <;> rfl

/-- An analyzer that takes a node and understands it finds its value there, if it has one, and has
nothing to complain about. -/
theorem Analyzer.findings_of_ok {analyzer : Analyzer κ α} {unit : SourceUnit} {context : κ}
    {node : Node} {value : Option α} (hkind : node.kind ∈ analyzer.kinds)
    (hvalue : analyzer.analyze unit context node = .ok value) :
    (analyzer.findings unit context node).contents = value.toList ∧
      (analyzer.findings unit context node).problems = [] := by
  have htaken : analyzer.kinds.contains node.kind = true := List.contains_iff_mem.mpr hkind
  rw [findings, htaken, hvalue]
  cases value <;> exact ⟨rfl, rfl⟩

/-- Where no analyzer takes a node, nothing is found there. -/
theorem Survey.findingsAt_of_not_taken {survey : Survey κ α} {node : Node}
    (h : ∀ analyzer ∈ survey.analyzers, analyzer.kinds.contains node.kind = false)
    (unit : SourceUnit) (context : κ) : survey.findingsAt unit context node = .empty := by
  refine Findings.join_eq_empty fun found hfound => ?_
  obtain ⟨analyzer, hanalyzer, rfl⟩ := List.mem_map.mp hfound
  exact Analyzer.findings_of_not_taken (h analyzer hanalyzer) unit context

/-- The values found at a node are those of all analyzers. -/
theorem Survey.findingsAt_contents (survey : Survey κ α) (unit : SourceUnit) (context : κ)
    (node : Node) :
    (survey.findingsAt unit context node).contents =
      survey.analyzers.flatMap fun analyzer => (analyzer.value? unit context node).toList := by
  simp only [Survey.findingsAt, Findings.contents_join, List.flatMap_map,
    Analyzer.findings_contents]

namespace Survey

variable {unit : SourceUnit} {value : α}

/-- What is found in a file is what the analyzers find at the nodes that are reached. -/
theorem mem_contents_collect {survey : Survey κ α} :
    value ∈ (survey.collect unit).contents ↔ ∃ reached ∈ survey.reached unit,
      ∃ analyzer ∈ survey.analyzers, analyzer.value? unit reached.2 reached.1 = some value := by
  simp only [collect_eq_join_reached, Findings.contents_join, List.flatMap_map, List.mem_flatMap,
    findingsAt_contents, Option.mem_toList]

/-- What is found in a file is found by an analyzer at a node. -/
theorem exists_of_mem_collect {survey : Survey κ α}
    (h : value ∈ (survey.collect unit).contents) :
    ∃ node ∈ unit.preorder, ∃ analyzer ∈ survey.analyzers, ∃ context,
      analyzer.value? unit context node = some value := by
  obtain ⟨⟨node, context⟩, hreached, analyzer, hanalyzer, hvalue⟩ := mem_contents_collect.mp h
  have hnode : node ∈ unit.preorder := map_fst_reached survey unit ▸ List.mem_map_of_mem hreached
  exact ⟨node, hnode, analyzer, hanalyzer, context, hvalue⟩

/-- Where there is only one context, what is found in a file is what is found at its nodes, in
preorder. -/
theorem collect_eq_join_preorder (survey : Survey Unit α) (unit : SourceUnit) :
    survey.collect unit = .join (unit.preorder.map (survey.findingsAt unit ())) := by
  rw [collect_eq_join_reached, ← map_fst_reached survey unit, List.map_map]
  rfl

/-- Where there is only one context, the values found in a file are those that the analyzers find at
its nodes, in preorder. -/
theorem contents_collect (survey : Survey Unit α) (unit : SourceUnit) :
    (survey.collect unit).contents = unit.preorder.flatMap fun node =>
      survey.analyzers.flatMap fun analyzer => (analyzer.value? unit () node).toList := by
  simp only [collect_eq_join_preorder, Findings.contents_join, List.flatMap_map,
    findingsAt_contents]

/-- In a file of statements with nothing below them the values found are those of the statements,
and nothing is left to complain about if it is not at any of them. -/
theorem collect_of_statements {σ : Type} {survey : Survey Unit α} {statements : List σ}
    {found : σ → List α} (hroot : survey.findingsAt unit () unit.root = .empty)
    (hstatements : List.Forall₂ (fun statement node => node.children = [] ∧
      (survey.findingsAt unit () node).contents = found statement ∧
      (survey.findingsAt unit () node).problems = []) statements unit.root.children) :
    (survey.collect unit).contents = statements.flatMap found ∧
      (survey.collect unit).problems = [] := by
  -- Nodes with nothing below them are all that is listed, and each adds what is found at it.
  have hflat : ∀ {some : List σ} {nodes : List Node},
      List.Forall₂ (fun statement node => node.children = [] ∧
        (survey.findingsAt unit () node).contents = found statement ∧
        (survey.findingsAt unit () node).problems = []) some nodes →
      Node.listed nodes = nodes ∧
        (Findings.join (nodes.map (survey.findingsAt unit ()))).contents = some.flatMap found ∧
        (Findings.join (nodes.map (survey.findingsAt unit ()))).problems = [] := by
    intro some nodes h
    induction h with
    | nil => exact ⟨rfl, rfl, rfl⟩
    | @cons statement node some nodes hstatement _ ih =>
      obtain ⟨hchildren, hcontents, hproblems⟩ := hstatement
      obtain ⟨hlisted, hmore, hnoMore⟩ := ih
      have hjoin : Findings.join ((node :: nodes).map (survey.findingsAt unit ())) =
          survey.findingsAt unit () node ++
            Findings.join (nodes.map (survey.findingsAt unit ())) := rfl
      refine ⟨by rw [Node.listed_cons, hchildren, hlisted]; rfl, ?_, ?_⟩
      · rw [hjoin, Findings.contents_append, hcontents, hmore, List.flatMap_cons]
      · rw [hjoin, Findings.problems_append, hproblems, hnoMore, List.append_nil]
  obtain ⟨hlisted, hcontents, hproblems⟩ := hflat hstatements
  rw [collect_eq_join_preorder, SourceUnit.preorder, Node.unstack_eq_listed, Node.listed_cons,
    Node.listed_nil, List.append_nil, hlisted, List.map_cons, hroot]
  exact ⟨hcontents, hproblems⟩

end Survey

end CorpusFacts
