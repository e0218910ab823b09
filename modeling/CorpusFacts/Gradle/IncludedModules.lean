import CorpusFacts.Analysis.Aggregator
import CorpusFacts.Analysis.Survey
import CorpusFacts.Gradle.Declaration
import CorpusFacts.Syntax.Parse

/-!
# Modules of settings scripts

A settings script includes modules by paths whose parts are separated by colons. A module lies in
the directory of the same parts, separated by slashes.
-/

namespace CorpusFacts.Gradle

/-- The names of settings scripts, the preferred one first. -/
def settingsScripts : List String :=
  ["settings.gradle.kts", "settings.gradle"]

/-- The directory of a module path; none where the path has no parts. -/
def moduleDirectory? (path : List Char) : Option (List Char) :=
  match (Text.split ':' (Text.trim path)).filter (!·.isEmpty) with
  | [] => none
  | parts => some (['/'].intercalate parts)

/-- Whether a statement includes modules: it starts with the whole word. -/
def isInclude (text : List Char) : Bool :=
  match Text.after? "include".toList text with
  | none => false
  | some rest => !rest.head?.any Text.isWord

/-- What stands between a quote and the next one of its kind, and what follows. -/
def literalText? : List Char → Option (List Char × List Char)
  | [] => none
  | quote :: body =>
    if !isQuote quote then none
    else
      match body.span (· != quote) with
      | (_, []) => none
      | (value, _ :: rest) => some (value, rest)

/-- The literals of a text, in order; at most `count` characters or literals are looked at. -/
def literalTexts : (count : Nat) → List Char → List (List Char)
  | 0, _ | _, [] => []
  | count + 1, text@(_ :: rest) =>
    match literalText? text with
    | some (value, rest) => value :: literalTexts count rest
    | none => literalTexts count rest

/-- Reads the statements that include modules. -/
def includeAnalyzer : Analyzer Unit (List String) where
  name := "gradle-include"
  kinds := [.statement]
  analyze unit _ node :=
    let text := Text.trim (unit.text node)
    if !isInclude text then .ok none
    else
      match (literalTexts text.length text).filterMap moduleDirectory? with
      | [] => .error ("no literal module path in " ++ Text.quoted text)
      | directories => .ok (some (directories.map String.ofList))

/-- The way modules are read from a settings script. -/
def includeSurvey : Survey Unit (List String) where
  start := ()
  controllers := []
  analyzers := [includeAnalyzer]

/-- The modules that a settings script includes, each where it occurs first. -/
def includedModules (unit : SourceUnit) : List String :=
  firstOccurrences (Aggregator.flatten.aggregate (includeSurvey.collect unit).values)

/-- The modules that the settings script of a directory includes; none without such a script. -/
def listedModules (tree : FileTree) (root : Path) : Except ParseError (List String) :=
  match settingsScripts.find? fun name => tree.isFile (root.join name) with
  | none => .ok []
  | some name => do
    let unit ← SourceUnit.ofFile tree (root.join name) name "."
    return includedModules unit

end CorpusFacts.Gradle
