import CorpusFacts.Analysis.Survey

/-!
# The way of a survey

A survey keeps the steps that lie ahead on a stack, where a step into a tree stands for the whole
way through it. Taken together these are the steps of a way that is told by recursion over the tree:
into a node, through its children, out of it. Each step finds the context that the earlier ones have
left.
-/

namespace CorpusFacts

mutual

/-- The way through a tree: into the node, through its children, out of the node. -/
def Node.visits : Node → List Visit
  | node@(.mk _ _ _ _ _ children) => .enter node :: (Node.visitsOfAll children ++ [.leave node])

/-- The way through some siblings. -/
def Node.visitsOfAll : List Node → List Visit
  | [] => []
  | node :: siblings => node.visits ++ Node.visitsOfAll siblings

end

/-- The way that a step on the stack stands for. -/
def Visit.way : Visit → List Visit
  | enter node => node.visits
  | leave node => [.leave node]

/-- The steps that lie ahead of a survey. -/
def Tour.ahead (tour : Tour κ α) : List Visit :=
  tour.stack.flatMap Visit.way

/-- The step that a survey takes next, with the context it is taken in. -/
def Tour.step? (tour : Tour κ α) : Option (Visit × κ) :=
  tour.stack.head?.map fun visit => (visit, tour.context)

/-- Steps into some siblings stand for the way through them. -/
theorem Visit.flatMap_way_enter (nodes : List Node) :
    (nodes.map enter).flatMap way = Node.visitsOfAll nodes := by
  induction nodes with
  | nil => rfl
  | cons node nodes ih =>
    rw [List.map_cons, List.flatMap_cons, ih]
    rfl

namespace Survey

variable (survey : Survey κ α) (unit : SourceUnit)

/-- What is found at a step. -/
def foundOn (context : κ) : Visit → Findings α
  | .enter node => survey.findingsAt unit (survey.entered unit node context) node
  | .leave _ => .empty

/-- The context behind a step. -/
def behind (context : κ) : Visit → κ
  | .enter node => survey.entered unit node context
  | .leave node => survey.left unit node context

/-- The steps of a way, each with the context that it is taken in. -/
def stepsAlong (context : κ) : List Visit → List (Visit × κ)
  | [] => []
  | visit :: rest => (visit, context) :: stepsAlong (survey.behind unit context visit) rest

/-- What is found on the rest of a way through the tree of a file. -/
def findingsAlong : κ → List Visit → Findings α
  | _, [] => .empty
  | context, .enter node :: rest =>
    let inside := survey.entered unit node context
    survey.findingsAt unit inside node ++ findingsAlong inside rest
  | context, .leave node :: rest => findingsAlong (survey.left unit node context) rest

/-- The states that a survey passes through, from one to the last. -/
def tours (tour : Tour κ α) : List (Tour κ α) :=
  tour ::
    match _h : survey.next? unit tour with
    | none => []
    | some next => tours next
termination_by tour.stepCount
decreasing_by
  have := stepCount_next? _h
  omega

variable {survey unit} {tour next : Tour κ α}

theorem next?_eq_none_iff : survey.next? unit tour = none ↔ tour.stack = [] := by
  obtain ⟨_ | ⟨node | node, rest⟩, context, findings⟩ := tour <;> simp [next?]

/-- A step is the first of those that lie ahead. It leads into the context behind it, leaves the
others ahead, and adds what is found at it. -/
theorem exists_visit_of_next? (h : survey.next? unit tour = some next) :
    ∃ visit, tour.step? = some (visit, tour.context) ∧ tour.ahead = visit :: next.ahead ∧
      next.context = survey.behind unit tour.context visit ∧
      next.findings = tour.findings ++ survey.foundOn unit tour.context visit := by
  obtain ⟨stack, context, findings⟩ := tour
  match stack with
  | [] => cases h
  | .leave node :: rest =>
    cases h
    exact ⟨.leave node, rfl, rfl, rfl, (Findings.append_empty _).symm⟩
  | .enter node :: rest =>
    cases h
    refine ⟨.enter node, rfl, ?_, rfl, rfl⟩
    obtain ⟨_, _, _, _, _, children⟩ := node
    simp only [Tour.ahead, List.foldr_cons_eq_append, List.flatMap_cons, List.flatMap_append,
      Visit.flatMap_way_enter, Visit.way, Node.visits, Node.children, List.cons_append,
      List.append_assoc]

theorem findingsAlong_cons (context : κ) (visit : Visit) (rest : List Visit) :
    survey.findingsAlong unit context (visit :: rest) = survey.foundOn unit context visit ++
      survey.findingsAlong unit (survey.behind unit context visit) rest := by
  cases visit <;> rfl

/-- A survey ends when all that lies ahead of it is done. -/
theorem finish_eq (tour : Tour κ α) :
    survey.finish unit tour =
      ⟨[], tour.ahead.foldl (survey.behind unit) tour.context,
        tour.findings ++ survey.findingsAlong unit tour.context tour.ahead⟩ := by
  induction tour using finish.induct survey unit with
  | case1 tour hnone =>
    rw [finish, hnone]
    obtain ⟨stack, context, findings⟩ := tour
    obtain rfl : stack = [] := next?_eq_none_iff.1 hnone
    exact congrArg _ (Findings.append_empty _).symm
  | case2 tour next hnext ih =>
    obtain ⟨visit, -, hahead, hcontext, hfindings⟩ := exists_visit_of_next? hnext
    -- what the step adds goes to the findings on the one side, to the way ahead on the other
    rw [finish, hnext, hahead, findingsAlong_cons, ← Findings.append_assoc, ← hfindings,
      List.foldl_cons, ← hcontext]
    exact ih

/-- The steps of a survey are those that lie ahead of it, each taken in the context that those
before it leave. -/
theorem filterMap_step?_tours (tour : Tour κ α) :
    (survey.tours unit tour).filterMap Tour.step? =
      survey.stepsAlong unit tour.context tour.ahead := by
  induction tour using finish.induct survey unit with
  | case1 tour hnone =>
    rw [tours, hnone]
    obtain ⟨stack, context, findings⟩ := tour
    obtain rfl : stack = [] := next?_eq_none_iff.1 hnone
    rfl
  | case2 tour next hnext ih =>
    obtain ⟨visit, hstep, hahead, hcontext, -⟩ := exists_visit_of_next? hnext
    rw [tours, hnext, hahead, List.filterMap_cons_some hstep, stepsAlong, ← hcontext, ← ih]

theorem ahead_outset (survey : Survey κ α) (unit : SourceUnit) :
    (survey.outset unit).ahead = unit.root.visits :=
  List.append_nil _

/-- What is found in a file is what is found on the way through its tree. -/
theorem collect_eq (survey : Survey κ α) (unit : SourceUnit) :
    survey.collect unit = survey.findingsAlong unit survey.start unit.root.visits := by
  rw [collect, finish_eq, ahead_outset]
  rfl

end Survey

end CorpusFacts
