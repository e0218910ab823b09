import CorpusFacts.Project.Error
import CorpusFacts.Project.Total

/-!
# Outcomes

What became of each project of a run, and of the run as a whole. Time is not measured: wherever a
duration is written, it is zero.
-/

namespace CorpusFacts

/-- What a project came to. -/
inductive Verdict where
  /-- Its records were written. -/
  | succeeded (artifact : Path) (facts units : Nat) (warnings : List String)
  /-- It has no result. -/
  | failed (error : ProjectError)
  deriving DecidableEq, Repr

/-- What became of one project. -/
structure Outcome where
  /-- The name of the project. -/
  project : String
  /-- The directory of the project. -/
  root : Path
  /-- What it came to. -/
  verdict : Verdict
  deriving DecidableEq, Repr

namespace Outcome

/-- Whether the records were written. -/
def isSuccess (outcome : Outcome) : Bool :=
  match outcome.verdict with
  | .succeeded .. => true
  | .failed _ => false

/-- The number of records written. -/
def facts (outcome : Outcome) : Nat :=
  match outcome.verdict with
  | .succeeded _ facts _ _ => facts
  | .failed _ => 0

/-- The problems that did not keep the project from succeeding. -/
def warnings (outcome : Outcome) : List String :=
  match outcome.verdict with
  | .succeeded _ _ _ warnings => warnings
  | .failed _ => []

/-- The entries of an outcome that depend on what the project came to. -/
def verdictEntries : Verdict → List (String × Json)
  | .succeeded artifact facts units warnings =>
    [("status", .text "succeeded"), ("artifact", .text artifact.text), ("facts", .natural facts),
      ("units", .natural units), ("warnings", .array (warnings.map .text))]
  | .failed error =>
    [("status", .text "failed"), ("error", .text error.message), ("facts", .natural 0),
      ("units", .natural 0), ("warnings", .array [])]

/-- The entries of an outcome, without its duration. -/
def entries (outcome : Outcome) : List (String × Json) :=
  ("project", .text outcome.project) :: ("root", .text outcome.root.text)
    :: verdictEntries outcome.verdict

/-- An outcome as an object. -/
def toJson (outcome : Outcome) : Json :=
  .object (outcome.entries ++ [("elapsed_ms", .natural 0)])

end Outcome

/-- The outcomes of a run, in the order the projects were found. -/
structure RunSummary where
  /-- The name of the analysis. -/
  analysis : String
  /-- The outcomes. -/
  outcomes : List Outcome
  deriving DecidableEq, Repr

namespace RunSummary

/-- The number of projects that succeeded. -/
def succeeded (summary : RunSummary) : Nat :=
  summary.outcomes.countP (·.isSuccess)

/-- The number of projects that failed. -/
def failed (summary : RunSummary) : Nat :=
  summary.outcomes.countP (!·.isSuccess)

/-- The number of records written for all projects. -/
def totalFacts (summary : RunSummary) : Nat :=
  totalOf (·.facts) summary.outcomes

/-- The number of warnings of all projects. -/
def totalWarnings (summary : RunSummary) : Nat :=
  totalOf (·.warnings.length) summary.outcomes

/-- A summary as an object. -/
def toJson (summary : RunSummary) : Json :=
  .object [("analysis", .text summary.analysis),
    ("outcomes", .array (summary.outcomes.map (·.toJson))), ("elapsed_ms", .natural 0)]

end RunSummary

end CorpusFacts
