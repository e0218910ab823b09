import CorpusFacts.Run.Outcome

/-!
# Reports

What is shown and written at the end of some runs: lines for the terminal, and a summary as JSON.
-/

namespace CorpusFacts

/-- The name of the program. -/
def programName : String := "factmine"

/-- The version of the program. -/
def programVersion : String := "0.1.0"

/-- The most failures of a run that are listed. -/
def maxListedFailures : Nat := 20

/-- A text filled up with blanks to a width. -/
def padRight (width : Nat) (text : String) : String :=
  text ++ String.ofList (List.replicate (width - text.length) ' ')

namespace Outcome

/-- The line of a project that failed; none for one that succeeded. -/
def failureLine? (outcome : Outcome) : Option String :=
  match outcome.verdict with
  | .succeeded .. => none
  | .failed error => some ("    ✗ " ++ outcome.project ++ ": " ++ error.message)

end Outcome

namespace RunSummary

/-- The line with the numbers of a run. -/
def countsLine (summary : RunSummary) : String :=
  let failed := if summary.failed > 0 then "  " ++ toString summary.failed ++ " failed" else ""
  "  " ++ padRight 22 summary.analysis ++ toString summary.succeeded ++ " ok" ++ failed ++ "  "
    ++ toString summary.totalFacts ++ " facts  (0 ms)"

/-- The lines of the projects that failed, as many as are listed. -/
def failureLines (summary : RunSummary) : List String :=
  let lines := summary.outcomes.filterMap (·.failureLine?)
  let more := lines.length - maxListedFailures
  lines.take maxListedFailures
    ++ if more > 0 then ["    ... and " ++ toString more ++ " more"] else []

/-- The line with the number of warnings, if there are any. -/
def warningLines (summary : RunSummary) : List String :=
  if summary.totalWarnings > 0 then
    ["    " ++ toString summary.totalWarnings ++ " warning(s), rerun with --verbose for details"]
  else []

/-- The lines of a run. -/
def lines (summary : RunSummary) : List String :=
  [summary.countsLine] ++ summary.failureLines ++ summary.warningLines ++ [""]

end RunSummary

/-- The number of failures in some runs. -/
def totalFailed (runs : List RunSummary) : Nat :=
  totalOf (·.failed) runs

/-- The last line of a report. -/
def closingLine (runs : List RunSummary) : String :=
  if totalFailed runs == 0 then "  ✓ all projects succeeded"
  else "  ✗ " ++ toString (totalFailed runs) ++ " project failure(s)"

/-- The lines of a report. -/
def reportLines (corpus outputDirectory : String) (runs : List RunSummary) : List String :=
  ["", "  " ++ programName ++ " v" ++ programVersion, "", "  Corpus: " ++ corpus,
    "  Output: " ++ outputDirectory, ""]
    ++ runs.flatMap (·.lines) ++ [closingLine runs, ""]

/-- The text of a report. -/
def report (corpus outputDirectory : String) (runs : List RunSummary) : String :=
  String.join ((reportLines corpus outputDirectory runs).map (· ++ "\n"))

/-- The summary of some runs. -/
def summaryJson (corpus : String) (runs : List RunSummary) : Json :=
  .object [("version", .text programVersion), ("corpus", .text corpus),
    ("runs", .array (runs.map (·.toJson))),
    ("projects", .natural (totalOf (·.outcomes.length) runs)),
    ("succeeded", .natural (totalOf (·.succeeded) runs)),
    ("failed", .natural (totalFailed runs)),
    ("facts", .natural (totalOf (·.totalFacts) runs))]

/-- Writes the summary of some runs to a file. -/
def writeSummary (tree : FileTree) (path : Path) (corpus : String) (runs : List RunSummary) :
    FileTree × Except OutputError Unit :=
  writeText tree path ((summaryJson corpus runs).render ++ "\n")

end CorpusFacts
