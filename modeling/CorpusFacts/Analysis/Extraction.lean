import CorpusFacts.Analysis.Aggregator
import CorpusFacts.Output.Format
import CorpusFacts.Output.Record
import CorpusFacts.Project.Basic

/-!
# Extractions

An extraction is one kind of fact to be mined from a project: which files it reads, what it finds in
each of them, and how the findings become records.
-/

namespace CorpusFacts

/-- Which files of a project are read. -/
inductive UnitScope where
  /-- Every source file with one of some extensions. -/
  | sources (extensions : List String)
  /-- The files with some names in the root directory and, if `modules`, in the directories of the
  modules. If `required`, there must be one. -/
  | descriptors (names : List String) (modules required : Bool)
  deriving DecidableEq, Repr

/-- Why making the records of a project came to a sudden end. -/
inductive Crash where
  /-- It ended with a message. -/
  | told (message : String)
  /-- It ended without one. -/
  | silent
  deriving DecidableEq, Repr

namespace Crash

/-- The wording of a crash. -/
def message : Crash → String
  | told message => message
  | silent => "non-string panic payload"

end Crash

/-- A kind of fact: findings `π` in files become records `ρ`. -/
structure Extraction (π ρ : Type) where
  /-- The name of the analysis. -/
  name : String
  /-- The files it reads. -/
  scope : UnitScope
  /-- The format its records are written in where none is asked for. -/
  defaultFormat : OutputFormat
  /-- Whether the order of the findings matters to the records. -/
  order : ResultOrder
  /-- Whether the modules of a project must be known. -/
  needsModules : Bool
  /-- What it finds in a file. -/
  collect : SourceUnit → Findings π
  /-- The records of a project from everything found in its files. -/
  aggregate : Project → List (Finding π) → Except Crash (List ρ)

end CorpusFacts
