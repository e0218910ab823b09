import CorpusFacts.Analysis.Extraction
import CorpusFacts.Output.Write
import CorpusFacts.Syntax.ParseError
import CorpusFacts.Text.Quoted

/-!
# Why a project fails

A project that fails is reported, and the others go on. Every reason for a failure, and its wording.
-/

namespace CorpusFacts

/-- Why a project has no result. -/
inductive ProjectError where
  /-- A directory cannot be resolved. -/
  | unresolved (path : Path) (failure : FileFailure)
  /-- A module that the build lists does not exist. -/
  | missingModule (path : Path) (listed : String)
  /-- The project has none of the files that are required. -/
  | missingDescriptor (root : Path) (names : List String)
  /-- A file that matters cannot be parsed. -/
  | unparsed (error : ParseError)
  /-- A directory cannot be walked. -/
  | walk (path : Path) (failure : FileFailure)
  /-- The results cannot be written. -/
  | output (error : OutputError)
  /-- The analysis takes longer than so many seconds. -/
  | timedOut (seconds : Nat)
  /-- The analysis came to a sudden end. -/
  | crashed (crash : Crash)
  deriving DecidableEq, Repr

namespace ProjectError

/-- A number of seconds as a duration is shown. -/
def durationText (seconds : Nat) : String :=
  if seconds == 0 then "0ns" else toString seconds ++ "s"

/-- The wording of an error. -/
def message : ProjectError → String
  | unresolved path failure =>
    "project discovery failed for " ++ path.text ++ ": " ++ failure.message
  | missingModule path listed =>
    "project discovery failed for " ++ path.text ++ ": listed module "
      ++ Text.quoted listed.toList ++ " does not exist"
  | missingDescriptor root names =>
    "missing build descriptor under " ++ root.text ++ ": expected one of "
      ++ ", ".intercalate names
  | unparsed error => "mandatory unit failed to parse: " ++ error.text
  | walk path failure =>
    "failed to walk " ++ path.text ++ ": IO error for operation on " ++ path.text ++ ": "
      ++ failure.message
  | output error => error.message
  | timedOut seconds => "analysis did not finish within " ++ durationText seconds
  | crashed crash => "analysis panicked: " ++ crash.message

end ProjectError

end CorpusFacts
