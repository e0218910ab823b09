import CorpusFacts.Gradle.Declaration

/-!
# Plugin entries

A plugin is applied by an `apply` statement, by a call of `plugin` in an `apply` block, or by an
entry of a `plugins` block. An entry names the plugin in one of five ways and may go on with a
version and with a flag that tells whether it is applied.
-/

namespace CorpusFacts.Gradle

/-- A plugin as an entry names it. -/
structure PluginEntry where
  /-- The identifier of the plugin. -/
  id : List Char
  /-- The version, where one is given. -/
  version : Option (List Char)
  /-- What the identifier is applied to. -/
  args : List (List Char)
  /-- Whether the plugin is applied, and not just declared. -/
  isApplied : Bool
  deriving DecidableEq, Repr

namespace PluginEntry

/-- A plugin that is applied without a version. -/
def applied (id : List Char) : PluginEntry := ⟨id, none, [], true⟩

end PluginEntry

/-- Why an entry of a `plugins` block cannot be understood. -/
inductive PluginEntryError where
  /-- It names no plugin in any known way. -/
  | unrecognized (text : List Char)
  /-- Its identifier is an expression. -/
  | notLiteral (text : List Char)
  /-- Something follows the identifier that is neither a version nor a flag. -/
  | leftover (rest id : List Char)
  deriving DecidableEq, Repr

namespace PluginEntryError

/-- The wording of an error. -/
def message : PluginEntryError → String
  | unrecognized text => "unrecognized plugin declaration " ++ Text.quoted text
  | notLiteral text => "plugin id is not a literal in " ++ Text.quoted text
  | leftover rest id =>
    "unexpected " ++ Text.quoted rest ++ " after plugin " ++ String.ofList id

end PluginEntryError

/-- What follows an opening parenthesis, if there is one, with blanks on either side of it. -/
def skipOpenAmongBlanks (text : List Char) : List Char :=
  Text.trimStart (skipOpen (Text.trimStart text))

/-- What follows a closing parenthesis, if there is one, with blanks before it. -/
def skipCloseAfterBlanks (text : List Char) : List Char :=
  match Text.trimStart text with
  | ')' :: rest => rest
  | rest => rest

/-- An identifier between quotes, not empty, and what follows it. -/
def quotedId? (text : List Char) : Option (List Char × List Char) := do
  let (id, rest) ← run? (!isQuote ·) (← afterChar? isQuote text)
  return (id, ← afterChar? isQuote rest)

/-- The identifier in quotes that a statement ends with, perhaps before a closing parenthesis. -/
def lastId? (text : List Char) : Option (List Char) := do
  let (id, rest) ← quotedId? text
  if isClosed (Text.trimStart rest) then some id else none

/-- The plugin that an `apply` statement applies. -/
def applyStatement? (text : List Char) : Option PluginEntry := do
  let rest ← Text.after? "apply".toList (Text.trim text)
  let rest ← Text.after? "plugin".toList (skipOpenAmongBlanks rest)
  let rest ← afterChar? (fun c => c == ':' || c == '=') (Text.trimStart rest)
  return .applied (← lastId? (Text.trimStart rest))

/-- The plugin that a statement of an `apply` block applies. -/
def pluginCall? (text : List Char) : Option PluginEntry := do
  let rest ← Text.after? "plugin".toList text
  return .applied (← lastId? (skipOpenAmongBlanks rest))

/-- How an entry names its plugin. -/
inductive PluginName where
  /-- An identifier between quotes. -/
  | literal (id : List Char)
  /-- A plugin of the Kotlin library. -/
  | kotlin (name : List Char)
  /-- An accessor of a version catalog. -/
  | catalog (accessor : List Char)
  /-- An identifier between backticks. -/
  | backtick (id : List Char)
  /-- An identifier that stands by itself. -/
  | bare (id : List Char)
  deriving DecidableEq, Repr

/-- A literal identifier. -/
def literalName? (text : List Char) : Option (PluginName × List Char) := do
  let (id, rest) ← quotedId? (skipOpenAmongBlanks (← Text.after? "id".toList text))
  return (.literal id, skipCloseAfterBlanks rest)

/-- A plugin of the Kotlin library. -/
def kotlinName? (text : List Char) : Option (PluginName × List Char) := do
  let rest ← Text.after? "kotlin".toList text
  let rest ← afterChar? (· == '(') (Text.trimStart rest)
  let (name, rest) ← quotedId? (Text.trimStart rest)
  return (.kotlin name, ← afterChar? (· == ')') (Text.trimStart rest))

/-- An accessor of a version catalog. -/
def catalogName? (text : List Char) : Option (PluginName × List Char) := do
  let rest ← Text.after? "alias".toList text
  let rest ← afterChar? (· == '(') (Text.trimStart rest)
  let (accessor, rest) ← run? (fun c => Text.isWord c || c == '.' || c == '-') (Text.trimStart rest)
  return (.catalog accessor, ← afterChar? (· == ')') (Text.trimStart rest))

/-- An identifier between backticks. -/
def backtickName? (text : List Char) : Option (PluginName × List Char) := do
  let (id, rest) ← run? (· != '`') (← afterChar? (· == '`') text)
  return (.backtick id, ← afterChar? (· == '`') rest)

/-- Whether a character can start a part of a bare identifier. -/
def startsBarePart (c : Char) : Bool :=
  ('a' ≤ c && c ≤ 'z') || ('A' ≤ c && c ≤ 'Z') || c == '_'

/-- Characters of a bare identifier after the first one of each part. -/
def isBareChar (c : Char) : Bool :=
  Text.isWord c || c == '-'

/-- The longest run of parts joined by dots, each started by a letter or underscore, and what
follows it. `inPart` tells whether a part is under way. -/
def bareParts (inPart : Bool) : List Char → List Char × List Char
  | [] => ([], [])
  | c :: rest =>
    if inPart && isBareChar c then
      let (taken, rest) := bareParts true rest
      (c :: taken, rest)
    else if inPart && c == '.' && rest.head?.any startsBarePart then
      let (taken, rest) := bareParts false rest
      (c :: taken, rest)
    else if !inPart && startsBarePart c then
      let (taken, rest) := bareParts true rest
      (c :: taken, rest)
    else ([], c :: rest)

/-- An identifier that stands by itself. -/
def bareName? (text : List Char) : Option (PluginName × List Char) :=
  match bareParts false text with
  | ([], _) => none
  | (id, rest) => some (.bare id, rest)

/-- A way to name a plugin, if all that follows is on one line. -/
def onOneLine (found : Option (PluginName × List Char)) : Option (PluginName × List Char) :=
  found.filter fun (_, rest) => !rest.contains '\n'

/-- The way an entry names its plugin, and what follows. -/
def pluginName? (text : List Char) : Option (PluginName × List Char) :=
  onOneLine (literalName? text) <|> onOneLine (kotlinName? text) <|> onOneLine (catalogName? text)
    <|> onOneLine (backtickName? text) <|> onOneLine (bareName? text)

/-- The version after the name of a clause: between quotes, or an expression. -/
def versionClause? (text : List Char) : Option (List Char × List Char) := do
  let rest := skipOpenAmongBlanks (← Text.after? "version".toList text)
  let (version, rest) ←
    quotedText? rest <|> run? (fun c => Text.isWord c || c == '.' || c == '$') rest
  return (version, skipCloseAfterBlanks rest)

/-- The flag after the name of a clause. -/
def applyClause? (text : List Char) : Option (Bool × List Char) := do
  let rest := skipOpenAmongBlanks (← Text.after? "apply".toList text)
  let (flag, rest) ←
    (Text.after? "true".toList rest).map (true, ·) <|>
      (Text.after? "false".toList rest).map (false, ·)
  return (flag, skipCloseAfterBlanks rest)

/-- The first clause that a blank or a dot comes before: the text before that, what the clause says,
and what follows it. -/
def laterClause? (clause? : List Char → Option (α × List Char)) :
    List Char → Option (List Char × α × List Char)
  | [] => none
  | c :: rest =>
    match if Text.isBlank c || c == '.' then clause? rest else none with
    | some (value, after) => some ([], value, after)
    | none =>
      match laterClause? clause? rest with
      | some (before, value, after) => some (c :: before, value, after)
      | none => none

/-- The first clause of a text, at its start or after a blank or a dot. -/
def firstClause? (clause? : List Char → Option (α × List Char)) (text : List Char) :
    Option (List Char × α × List Char) :=
  match clause? text with
  | some (value, after) => some ([], value, after)
  | none => laterClause? clause? text

/-- A text without its first clause. -/
def withoutClause (clause? : List Char → Option (α × List Char)) (text : List Char) : List Char :=
  match firstClause? clause? text with
  | some (before, _, after) => before ++ after
  | none => text

/-- The identifier and the arguments of a plugin from the way it is named. -/
def PluginName.reference (text : List Char) :
    PluginName → Except PluginEntryError (List Char × List (List Char))
  | literal id | backtick id => .ok (id, [])
  | kotlin name => .ok ("kotlin".toList, [name])
  | catalog accessor => .ok (accessor, [])
  | bare id => if id == "id".toList then .error (.notLiteral text) else .ok (id, [])

/-- The plugin that an entry of a `plugins` block names. -/
def pluginEntry (text : List Char) : Except PluginEntryError PluginEntry := do
  let text := Text.trim text
  match applyStatement? text with
  | some entry => return entry
  | none =>
    match pluginName? text with
    | none => .error (.unrecognized text)
    | some (name, rest) =>
      let (id, args) ← name.reference text
      let version := (firstClause? versionClause? rest).map (·.2.1)
      let isApplied := ((firstClause? applyClause? rest).map (·.2.1)).getD true
      let leftover := Text.trim (withoutClause applyClause? (withoutClause versionClause? rest))
      if leftover.isEmpty then return ⟨id, version, args, isApplied⟩
      else .error (.leftover leftover id)

end CorpusFacts.Gradle
