import CorpusFacts.Files.Path
import CorpusFacts.Output.Format
import CorpusFacts.Text.Quoted

/-!
# Names of output files

Each project has an output file of its own, named by a pattern with placeholders for the project,
the analysis and the extension. A pattern without the project is used in a directory named for it.
-/

namespace CorpusFacts

/-- What is wrong with a pattern of file names. -/
inductive PatternFault where
  /-- It is blank. -/
  | empty
  /-- It starts at the root of the file system. -/
  | absolute
  /-- It leads out of the output directory. -/
  | outside
  /-- A placeholder has no end. -/
  | unclosed
  /-- A placeholder has an unknown name. -/
  | unknownPlaceholder (name : List Char)
  /-- It gives the same name to several analyses. -/
  | withoutAnalysis
  deriving DecidableEq, Repr

namespace PatternFault

/-- The wording of a fault. -/
def message : PatternFault → String
  | empty => "pattern is empty"
  | absolute => "pattern must be relative to the output directory"
  | outside => "pattern must not leave the output directory"
  | unclosed => "unclosed '\x7b'"
  | unknownPlaceholder name => "unknown placeholder \x7b" ++ String.ofList name ++ "\x7d"
  | withoutAnalysis => "pattern needs \x7banalysis\x7d when several extractions run"

end PatternFault

/-- The placeholder of the project. -/
def projectPlaceholder : List Char := "\x7bproject\x7d".toList

/-- The placeholder of the analysis. -/
def analysisPlaceholder : List Char := "\x7banalysis\x7d".toList

/-- The placeholder of the extension. -/
def extensionPlaceholder : List Char := "\x7bext\x7d".toList

/-- The names of the placeholders. -/
def placeholderNames : List (List Char) :=
  ["project".toList, "analysis".toList, "ext".toList]

/-- The first fault in the placeholders of a pattern; `name` is the reversed start of the name of a
placeholder under way. -/
def placeholderFault? : (name : Option (List Char)) → List Char → Option PatternFault
  | none, [] => none
  | some _, [] => some .unclosed
  | none, c :: rest => placeholderFault? (if c == '\x7b' then some [] else none) rest
  | some name, c :: rest =>
    if c != '\x7d' then placeholderFault? (some (c :: name)) rest
    else if placeholderNames.contains name.reverse then placeholderFault? none rest
    else some (.unknownPlaceholder name.reverse)

/-- What is wrong with a pattern, if anything is. -/
def patternFault? (pattern : String) : Option PatternFault :=
  let path : Path := ⟨pattern⟩
  if (Text.trim pattern.toList).isEmpty then some .empty
  else if path.isAbsolute then some .absolute
  else if path.components.contains .parent then some .outside
  else placeholderFault? none pattern.toList

/-- What is wrong with a pattern that several analyses share, if anything is. -/
def sharedPatternFault? (pattern : String) : Option PatternFault :=
  match patternFault? pattern with
  | some fault => some fault
  | none =>
    if Text.occursIn analysisPlaceholder pattern.toList then none else some .withoutAnalysis

/-- The pattern that is used where none is given. -/
def defaultPattern : String := "\x7bproject\x7d_\x7banalysis\x7d.\x7bext\x7d"

/-- How the output files of an analysis are named. -/
structure ArtifactNaming where
  /-- The output directory. -/
  directory : Path
  /-- The pattern of the names. -/
  pattern : String
  /-- The name of the analysis. -/
  analysis : String
  /-- The format of the files. -/
  format : OutputFormat
  deriving DecidableEq, Repr

namespace ArtifactNaming

/-- The pattern with its placeholders filled in for a project. -/
def fileName (naming : ArtifactNaming) (project : String) : String :=
  let named := Text.replace projectPlaceholder project.toList naming.pattern.toList
  let named := Text.replace analysisPlaceholder naming.analysis.toList named
  String.ofList (Text.replace extensionPlaceholder naming.format.extension.toList named)

/-- The path of the output file of a project. -/
def path (naming : ArtifactNaming) (project : String) : Path :=
  let name := naming.fileName project
  if Text.occursIn projectPlaceholder naming.pattern.toList then naming.directory.join name
  else (naming.directory.join project).join name

end ArtifactNaming

end CorpusFacts
