import CorpusFacts.Config.YamlLexer
import CorpusFacts.Config.YamlNode

/-!
# YAML documents

The value of the document that some tokens spell. Readers take a bound on how many of them may be
called inside each other; of three such calls one takes a token at least, so three times the number
of the tokens is enough.
-/

namespace CorpusFacts.Yaml

/-- What is left of a document, and what is known about the names in it. -/
structure Remainder where
  /-- The tokens that are left. -/
  tokens : List Token
  /-- The texts that handles of tags stand for. -/
  handles : List (List Char × List Char)
  /-- The numbers of names, the latest one of a name first. -/
  anchors : List (List Char × Nat)

/-- Readers of what is left of a document. -/
abbrev Reader := StateT Remainder Option

/-- What a value is marked with. -/
structure Marks where
  /-- The number of its name. -/
  anchor : Option Nat
  /-- Its kind. -/
  tag : Option (List Char)

namespace Reader

/-- The next token. -/
def peek : Reader (Option Token) := do
  return (← get).tokens.head?

/-- Goes past the next token. -/
def skip : Reader Unit :=
  modify fun left => { left with tokens := left.tokens.tail }

/-- Gives a value a name. Its number is the number of the other names before it. -/
def name (name : List Char) : Reader Nat := do
  let anchors := (← get).anchors
  let id := anchors.length
  modify fun left => { left with anchors := (name, id) :: anchors.filter (·.1 != name) }
  return id

/-- The number of a name. -/
def numberOf (name : List Char) : Reader Nat := do
  match (← get).anchors.find? (·.1 == name) with
  | some (_, id) => return id
  | none => failure

/-- The kind that a tag says. -/
def resolve (handle suffix : List Char) : Reader (List Char) := do
  if handle.isEmpty then return suffix
  match (← get).handles.find? (·.1 == handle) with
  | some (_, text) => return text ++ suffix
  | none => failure

/-- The name and the tag at the next tokens, in any order. -/
def marks : Reader Marks := do
  match ← peek with
  | some (.anchor anchor) =>
    skip
    let id ← name anchor
    match ← peek with
    | some (.tag handle suffix) =>
      skip
      return ⟨some id, some (← resolve handle suffix)⟩
    | _ => return ⟨some id, none⟩
  | some (.tag handle suffix) =>
    skip
    match ← peek with
    | some (.anchor anchor) =>
      skip
      let id ← name anchor
      return ⟨some id, some (← resolve handle suffix)⟩
    | _ => return ⟨none, some (← resolve handle suffix)⟩
  | _ => return ⟨none, none⟩

/-- A scalar. The tag that says nothing is dropped. -/
def scalar (marks : Marks) (style : ScalarStyle) (text : List Char) : Node :=
  .scalar marks.anchor (marks.tag.filter (· != ['!'])) style text

/-- A value that is left out, but may be marked. -/
def missing (marks : Marks) : Reader Node :=
  if marks.anchor.isSome || marks.tag.isSome then
    return .scalar marks.anchor marks.tag .plain []
  else failure

/-- Whether there is no value before a token of a collection that is written in lines. -/
def endsBlockValue (isItem : Bool) : Option Token → Bool
  | some .blockEnd => true
  | some .blockEntry => isItem
  | some .key | some .value => !isItem
  | _ => false

/-- Whether there is no value before a token of a sequence that is written in the lines of a
mapping. -/
def endsIndentless (token : Option Token) : Bool :=
  endsBlockValue true token || endsBlockValue false token

/-- Whether there is no value before a token of a collection in brackets or braces. -/
def endsFlowValue (close : Token → Bool) : Option Token → Bool
  | some .flowEntry => true
  | some token => close token
  | none => false

/-- Whether a token ends a sequence in brackets. -/
def endsSequence : Token → Bool
  | .flowSequenceEnd => true
  | _ => false

/-- Whether a token ends a mapping in braces. -/
def endsMapping : Token → Bool
  | .flowMappingEnd => true
  | _ => false

/-- Goes past what is between two entries of a collection in brackets or braces, but for the first.
-/
def separator (isFirst : Bool) : Reader Unit := do
  if isFirst then return
  match ← peek with
  | some .flowEntry => skip
  | _ => failure

mutual

/-- A value. Outside of brackets and braces it may be a collection that is written in lines; the
value of a mapping may be a sequence whose hyphens are in the column of the mapping. -/
def node (inBlock isEntry : Bool) : (bound : Nat) → Reader Node
  | 0 => failure
  | bound + 1 => do
    if let some (.alias name) ← peek then
      skip
      return .reference (← numberOf name)
    let marks ← marks
    match ← peek with
    | some .blockEntry =>
      if isEntry then return .sequence marks.anchor (← indentlessItems bound) else missing marks
    | some (.scalar style text) =>
      skip
      return scalar marks style text
    | some .flowSequence =>
      skip
      return .sequence marks.anchor (← flowItems true bound)
    | some .flowMapping =>
      skip
      return .mapping marks.anchor (← flowEntries true bound)
    | some .blockSequence =>
      if inBlock then
        skip
        return .sequence marks.anchor (← blockItems bound)
      else missing marks
    | some .blockMapping =>
      if inBlock then
        skip
        return .mapping marks.anchor (← blockEntries bound)
      else missing marks
    | _ => missing marks

/-- A value that may be left out before some tokens. -/
def optionalNode (inBlock isEntry : Bool) (ends : Option Token → Bool) :
    (bound : Nat) → Reader Node
  | 0 => failure
  | bound + 1 => do
    if ends (← peek) then return .empty else node inBlock isEntry bound

/-- The items of a sequence that is written in lines. -/
def blockItems : (bound : Nat) → Reader (List Node)
  | 0 => failure
  | bound + 1 => do
    match ← peek with
    | some .blockEntry =>
      skip
      let item ← optionalNode true false (endsBlockValue true) bound
      return item :: (← blockItems bound)
    | some .blockEnd =>
      skip
      return []
    | _ => failure

/-- The items of a sequence whose hyphens are in the column of the mapping around it. -/
def indentlessItems : (bound : Nat) → Reader (List Node)
  | 0 => failure
  | bound + 1 => do
    match ← peek with
    | some .blockEntry =>
      skip
      let item ← optionalNode true false endsIndentless bound
      return item :: (← indentlessItems bound)
    | _ => return []

/-- The entries of a mapping that is written in lines. -/
def blockEntries : (bound : Nat) → Reader (List (Node × Node))
  | 0 => failure
  | bound + 1 => do
    match ← peek with
    | some .key =>
      skip
      let key ← optionalNode true true (endsBlockValue false) bound
      let value ←
        match ← peek with
        | some .value => do
          skip
          optionalNode true true (endsBlockValue false) bound
        | _ => pure .empty
      return (key, value) :: (← blockEntries bound)
    | some .blockEnd =>
      skip
      return []
    | _ => failure

/-- The items of a sequence in brackets. -/
def flowItems (isFirst : Bool) : (bound : Nat) → Reader (List Node)
  | 0 => failure
  | bound + 1 => do
    if (← peek).any endsSequence then
      skip
      return []
    separator isFirst
    match ← peek with
    | some .flowSequenceEnd =>
      skip
      return []
    | some .key =>
      skip
      let item ← flowPair bound
      return item :: (← flowItems false bound)
    | _ =>
      let item ← node false false bound
      return item :: (← flowItems false bound)

/-- The only entry of a mapping that is an item of a sequence in brackets. A token in the place of
its key does not count. -/
def flowPair : (bound : Nat) → Reader Node
  | 0 => failure
  | bound + 1 => do
    let next ← peek
    let isMissing := endsFlowValue endsSequence next || next matches some .value
    let key ← if isMissing then (do skip; return .empty) else node false false bound
    let value ← flowValue endsSequence bound
    return .mapping none [(key, value)]

/-- The value of an entry in brackets or braces; it may be left out with or without its colon. -/
def flowValue (close : Token → Bool) : (bound : Nat) → Reader Node
  | 0 => failure
  | bound + 1 => do
    match ← peek with
    | some .value =>
      skip
      optionalNode false false (endsFlowValue close) bound
    | _ => return .empty

/-- The entries of a mapping in braces. -/
def flowEntries (isFirst : Bool) : (bound : Nat) → Reader (List (Node × Node))
  | 0 => failure
  | bound + 1 => do
    if (← peek).any endsMapping then
      skip
      return []
    separator isFirst
    match ← peek with
    | some .flowMappingEnd =>
      skip
      return []
    | some .key =>
      skip
      let next ← peek
      let isMissing := endsFlowValue endsMapping next || next matches some .value
      let key ← if isMissing then pure .empty else node false false bound
      let value ← flowValue endsMapping bound
      return (key, value) :: (← flowEntries false bound)
    | _ =>
      let key ← node false false bound
      return (key, .empty) :: (← flowEntries false bound)

end

/-- Takes note of a directive. Only versions 1.1 and 1.2 are known, and nothing is said twice. -/
def directive (hasVersion : Bool) : Directive → Reader Bool
  | .version major minor =>
    if !hasVersion && major == 1 && (minor == 1 || minor == 2) then return true else failure
  | .tag handle text => do
    let handles := (← get).handles
    if handles.any (·.1 == handle) then failure
    modify fun left => { left with handles := (handle, text) :: handles }
    return hasVersion

/-- Takes note of the directives at the next tokens. -/
def directives (hasVersion : Bool) : (bound : Nat) → Reader Unit
  | 0 => failure
  | bound + 1 => do
    match ← peek with
    | some (.directive next) =>
      skip
      directives (← directive hasVersion next) bound
    | _ => return

/-- What handles of tags stand for if no directive says something else. -/
def knownHandles : List (List Char × List Char) :=
  [(['!'], ['!']), (['!', '!'], "tag:yaml.org,2002:".toList)]

/-- Whether a document is left out before a token. -/
def endsDocument : Option Token → Bool
  | none => true
  | some token => token matches .directive _ | .documentStart | .documentEnd

/-- The value of the document that starts at the next token. -/
def document (bound : Nat) : Reader Node := do
  let isMarked := (← peek).any fun token => token matches .directive _ | .documentStart
  if isMarked then
    directives false bound
    let isStarted := (← peek) matches some .documentStart
    if !isStarted then failure
    skip
  modify fun left => { left with handles := left.handles ++ knownHandles }
  if isMarked then optionalNode true false endsDocument bound else node true false bound

end Reader

/-- The value of the only document of a file; none where the file is malformed. -/
def document? (text : List Char) : Option Node := do
  let tokens ← tokens? text
  if tokens.isEmpty then return .empty
  let bound := 3 * tokens.length + 4
  let (value, left) ← (Reader.document bound).run ⟨tokens, [], []⟩
  if left.tokens.all (· matches .documentEnd) then return value else none

end CorpusFacts.Yaml
