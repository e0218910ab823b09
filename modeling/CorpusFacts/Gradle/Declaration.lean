import CorpusFacts.Text.Quoted
import CorpusFacts.Text.Words

/-!
# Dependency declarations

A dependency is declared by the name of a configuration and the coordinates of what is needed.
Blanks count for nothing, so declarations are read without them. There are four ways to write
coordinates:

* several texts of the form `group:artifact:version`, separated by commas;
* the short notation: one such text, or its parts as texts of their own;
* the map notation: parts named `group`, `name` and `version`;
* the Kotlin notation: a module of the Kotlin library and its version.

The arguments may stand in parentheses. Declarations without coordinates, such as those of other
projects, declare nothing here.
-/

namespace CorpusFacts.Gradle

/-- The coordinates that a declaration asks for. -/
structure Coordinates where
  /-- The configuration, in its usual spelling. -/
  configuration : String
  /-- The group. -/
  group : List Char
  /-- The artifact. -/
  artifact : List Char
  /-- The version, where one is given. -/
  version : Option (List Char)
  deriving DecidableEq, Repr

/-- Why a declaration with a known configuration cannot be understood. -/
inductive DeclarationError where
  /-- A text that should be coordinates names no group. -/
  | noGroup (value : List Char)
  deriving DecidableEq, Repr

namespace DeclarationError

/-- The wording of an error. -/
def message : DeclarationError → String
  | noGroup value => "dependency " ++ Text.quoted value ++ " has no group"

end DeclarationError

/-- The configurations, in their usual spelling. -/
def configurations : List String :=
  ["implementation", "api", "compileOnly", "compileOnlyApi", "runtimeOnly", "testImplementation",
    "testCompileOnly", "testRuntimeOnly", "androidTestImplementation", "debugImplementation",
    "releaseImplementation", "annotationProcessor", "testAnnotationProcessor", "kapt", "kaptTest",
    "ksp", "classpath", "compile", "runtime", "testCompile", "testRuntime"]

/-- The usual spelling of a configuration, in whatever case it is written. -/
def configuration? (name : List Char) : Option String :=
  configurations.find? fun usual => Text.asciiLower usual.toList == Text.asciiLower name

/-- Single and double quotes. -/
def isQuote (c : Char) : Bool :=
  c == '\'' || c == '"'

/-- What may stand between the parts of short coordinates: quotes, colons and commas. -/
def isSeparator (c : Char) : Bool :=
  isQuote c || c == ':' || c == ','

/-- Characters of a value in the map and Kotlin notations and of a short version. -/
def isValueChar (c : Char) : Bool :=
  !(isQuote c || c == ',' || c == '(' || c == ')')

/-- Characters of a group or artifact in the short notation. -/
def isCoordinateChar (c : Char) : Bool :=
  isValueChar c && !(c == ':' || c == '\x7b' || c == '\x7d')

/-- A character with its simple case variants folded to lower case, as far as they fold to ASCII. -/
def foldCase (c : Char) : Char :=
  if c == 'ſ' then 's' else if c == '\u212a' then 'k' else c.toLower

/-- What follows a keyword in a text that begins with it, in whatever case. -/
def afterKeyword? : (keyword text : List Char) → Option (List Char)
  | [], text => some text
  | _ :: _, [] => none
  | k :: keyword, c :: text => if foldCase c == k then afterKeyword? keyword text else none

/-- The characters that satisfy `p` at the start of a text, at least one, and what follows them. -/
def run? (p : Char → Bool) (text : List Char) : Option (List Char × List Char) :=
  match text.span p with
  | ([], _) => none
  | (taken, rest) => some (taken, rest)

/-- What follows one character that satisfies `p`. -/
def afterChar? (p : Char → Bool) : List Char → Option (List Char)
  | [] => none
  | c :: rest => if p c then some rest else none

/-- What follows an opening parenthesis, if there is one. -/
def skipOpen : List Char → List Char
  | '(' :: rest => rest
  | text => text

/-- Whether nothing is left but a closing parenthesis. -/
def isClosed : List Char → Bool
  | [] => true
  | [')'] => true
  | _ => false

/-- A text between quotes, of any characters but quotes, and what follows it. -/
def quotedText? (text : List Char) : Option (List Char × List Char) := do
  let body ← afterChar? isQuote text
  let (value, rest) := body.span (!isQuote ·)
  return (value, ← afterChar? isQuote rest)

/-- A value between quotes, and what follows it. -/
def quotedValue? (text : List Char) : Option (List Char × List Char) := do
  let (value, rest) ← run? isValueChar (← afterChar? isQuote text)
  return (value, ← afterChar? isQuote rest)

/-- Texts between quotes, separated by commas, up to the end of a declaration. At most `count` of
them are read. -/
def quotedTexts? : (count : Nat) → List Char → Option (List (List Char))
  | 0, _ => none
  | count + 1, text => do
    let (value, rest) ← quotedText? text
    if isClosed rest then return [value]
    let values ← quotedTexts? count (← afterChar? (· == ',') rest)
    return value :: values

/-- A word followed by nothing but quoted texts. -/
def wordWithTexts? (text : List Char) : Option (List Char × List (List Char)) := do
  let (word, rest) ← run? Text.isWord text
  let values ← quotedTexts? text.length (skipOpen rest)
  return (word, values)

/-- A configuration as it is written, with a group, an artifact and a version. -/
structure Notation where
  /-- The name of the configuration. -/
  configuration : List Char
  /-- The group. -/
  group : List Char
  /-- The artifact. -/
  artifact : List Char
  /-- The version, where one is given. -/
  version : Option (List Char)
  deriving DecidableEq, Repr

/-- The version at the end of short coordinates, from the separators before it on. A colon that only
a quote follows is a version itself. -/
def shortVersion? (text : List Char) : Option (Option (List Char)) :=
  let (separators, rest) := text.span isSeparator
  match rest.span isValueChar with
  | (version@(_ :: _), quote :: rest) =>
    if !separators.isEmpty && isQuote quote && isClosed rest then some (some version) else none
  | ([], rest) =>
    if !isClosed rest then none
    else
      match separators.reverse with
      | [quote] => if isQuote quote then some none else none
      | quote :: ':' :: _ :: _ => if isQuote quote then some (some [':']) else none
      | _ => none
  | _ => none

/-- The short notation. -/
def shortNotation? (text : List Char) : Option Notation := do
  let (configuration, rest) ← run? Text.isWord text
  let (group, rest) ← run? isCoordinateChar (← afterChar? isQuote (skipOpen rest))
  let (_, rest) ← run? isSeparator rest
  let (artifact, rest) ← run? isCoordinateChar rest
  return ⟨configuration, group, artifact, ← shortVersion? rest⟩

/-- A value under a name, and what follows it. -/
def namedValue? (name : String) (text : List Char) : Option (List Char × List Char) := do
  let rest ← afterKeyword? name.toList text
  quotedValue? (← afterChar? (fun c => c == ':' || c == '=') rest)

/-- A word, with a keyword at its end or behind an opening parenthesis; the word without the
keyword, and what follows the keyword. -/
def wordBeforeKeyword? (keyword : String) (text : List Char) : Option (List Char × List Char) := do
  let (word, rest) ← run? Text.isWord text
  match rest with
  | '(' :: inner =>
    match afterKeyword? keyword.toList inner with
    | some rest => return (word, rest)
    | none => splitWord word rest
  | _ => splitWord word rest
where
  /-- The keyword cut off the end of a word. -/
  splitWord (word rest : List Char) : Option (List Char × List Char) :=
    let start := word.take (word.length - keyword.length)
    if start.isEmpty then none
    else if afterKeyword? keyword.toList (word.drop start.length) == some [] then some (start, rest)
    else none

/-- The map notation. -/
def mapNotation? (text : List Char) : Option Notation := do
  let (configuration, rest) ← wordBeforeKeyword? "group" text
  let (group, rest) ← quotedValue? (← afterChar? (fun c => c == ':' || c == '=') rest)
  let (artifact, rest) ← namedValue? "name" (← afterChar? (· == ',') rest)
  if isClosed rest then return ⟨configuration, group, artifact, none⟩
  let (version, rest) ← namedValue? "version" (← afterChar? (· == ',') rest)
  if isClosed rest then return ⟨configuration, group, artifact, some version⟩ else none

/-- Whether nothing is left but the closing parenthesis of the Kotlin notation and of the call. -/
def closesKotlin (text : List Char) : Bool :=
  match text with
  | ')' :: rest => isClosed rest
  | _ => false

/-- The Kotlin notation. -/
def kotlinNotation? (text : List Char) : Option Notation := do
  let (configuration, rest) ← wordBeforeKeyword? "kotlin" text
  let (name, rest) ← quotedValue? (← afterChar? (· == '(') rest)
  let artifact := "kotlin-".toList ++ name
  let group := "org.jetbrains.kotlin".toList
  if closesKotlin rest then return ⟨configuration, group, artifact, none⟩
  let rest ← afterChar? (· == ',') rest
  let (version, rest) ← quotedValue? ((afterKeyword? "version=".toList rest).getD rest)
  if closesKotlin rest then return ⟨configuration, group, artifact, some version⟩ else none

/-- The coordinates in one text, its parts separated by colons. -/
def coordinatesIn (configuration : String) (value : List Char) :
    Except DeclarationError Coordinates :=
  let (group, rest) := value.span (· != ':')
  let (artifact, rest) := (rest.drop 1).span (· != ':')
  if group.isEmpty || artifact.isEmpty then .error (.noGroup value)
  else
    let version := rest.drop 1
    .ok ⟨configuration, group, artifact, if version.isEmpty then none else some version⟩

/-- The coordinates of several texts, if that is what a declaration is: two texts or more, one of
them with a colon. -/
def coordinateList? (text : List Char) : Option (Except DeclarationError (List Coordinates)) := do
  let (word, values) ← wordWithTexts? text
  if values.length < 2 || !values.any (·.contains ':') then none
  else
    match configuration? word with
    | none => return .ok []
    | some configuration => return values.mapM (coordinatesIn configuration)

/-- What a notation declares; nothing where its configuration is not known. -/
def Notation.coordinates (found : Notation) : List Coordinates :=
  match configuration? found.configuration with
  | none => []
  | some configuration => [⟨configuration, found.group, found.artifact, found.version⟩]

/-- The coordinates that a declaration asks for: none where it is no declaration of coordinates, and
an error where a known configuration is given a single text that is not coordinates. -/
def declaration (text : List Char) : Except DeclarationError (List Coordinates) :=
  let text := Text.compact text
  match coordinateList? text with
  | some list => list
  | none =>
    match (shortNotation? text <|> mapNotation? text <|> kotlinNotation? text) with
    | some found => .ok found.coordinates
    | none =>
      match wordWithTexts? text with
      | some (word, [value]) =>
        if (configuration? word).isSome then .error (.noGroup value) else .ok []
      | _ => .ok []

end CorpusFacts.Gradle
