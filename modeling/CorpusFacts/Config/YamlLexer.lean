import CorpusFacts.Config.YamlToken

/-!
# The tokens of a YAML text

Tokens are read from left to right. What comes before a colon is a key, so a token may be one until
its line ends; only when the colon comes are the marks before the key put in. The columns of keys
and of hyphens say where collections that are written in lines start and end.
-/

namespace CorpusFacts.Yaml

/-- A place in a text. -/
structure Cursor where
  /-- What follows the place. -/
  rest : List Char
  /-- The number of bytes before it. -/
  index : Nat
  /-- The number of lines before its line. -/
  line : Nat
  /-- The number of characters before it on its line. -/
  column : Nat

namespace Cursor

/-- The start of a text. -/
def start (text : List Char) : Cursor := ⟨text, 0, 0, 0⟩

/-- The place behind the next character. -/
def next (cursor : Cursor) : Cursor :=
  match cursor.rest with
  | [] => cursor
  | c :: rest =>
    if isBreak c && !isHalfBreak c rest then ⟨rest, cursor.index + c.utf8Size, cursor.line + 1, 0⟩
    else ⟨rest, cursor.index + c.utf8Size, cursor.line, cursor.column + 1⟩

/-- The place that so many characters follow. -/
def before (cursor : Cursor) (rest : List Char) : Cursor :=
  (cursor.rest.length - rest.length).repeat next cursor

/-- Whether the next character starts a line. -/
def isLineStart (cursor : Cursor) : Bool :=
  cursor.column == 0

end Cursor

/-- The next place with content: what is between is blanks, line breaks and comments. -/
structure Lead where
  /-- The place. -/
  cursor : Cursor
  /-- Whether there is a line break before it. -/
  isBroken : Bool

/-- The place after some blanks, comments and, with `isBroken`, line breaks. Tabs count as blanks
only with `skipsTabs`, and after a line break only with `inFlow`. -/
def lead (inFlow skipsTabs : Bool) (isBroken inComment : Bool) (cursor : Cursor) :
    (bound : Nat) → Lead
  | 0 => ⟨cursor, isBroken⟩
  | bound + 1 =>
    match cursor.rest with
    | [] => ⟨cursor, isBroken⟩
    | c :: _ =>
      if isBreak c then lead inFlow inFlow true false cursor.next bound
      else if inComment || c == ' ' || (c == '\t' && skipsTabs) then
        lead inFlow skipsTabs isBroken inComment cursor.next bound
      else if c == '#' then lead inFlow skipsTabs isBroken true cursor.next bound
      else ⟨cursor, isBroken⟩

/-- The start of a key, if a colon follows. -/
structure PendingKey where
  /-- Whether a colon has to follow. -/
  isRequired : Bool
  /-- The number of tokens before the key. -/
  position : Nat
  /-- Where the key starts. -/
  start : Cursor

/-- What has been read of a text. -/
structure Lexer where
  /-- The place up to which it has been read. -/
  cursor : Cursor
  /-- The tokens so far. -/
  tokens : Array Token
  /-- The columns of the open collections that are written in lines, the innermost first. -/
  columns : List Nat
  /-- The key that may start in the innermost collection. -/
  pending : Option PendingKey
  /-- The keys that may start in the collections around, if the innermost is in brackets or braces.
  -/
  outer : List (Option PendingKey)
  /-- Whether a key may start at the place. -/
  allowsKey : Bool

namespace Lexer

/-- Nothing has been read of a text. -/
def start (text : List Char) : Lexer where
  cursor := if text.head? == some '\uFEFF' then (Cursor.start text).next else .start text
  tokens := #[]
  columns := []
  pending := none
  outer := []
  allowsKey := true

/-- Whether the place is between brackets or braces. -/
def inFlow (lexer : Lexer) : Bool :=
  !lexer.outer.isEmpty

/-- How many blanks are before what belongs to the innermost collection that is written in lines. -/
def floor (lexer : Lexer) : Nat :=
  match lexer.columns with
  | [] => 0
  | column :: _ => column + 1

/-- One more token, that ends before a text. -/
def push (lexer : Lexer) (token : Token) (rest : List Char) : Lexer :=
  { lexer with tokens := lexer.tokens.push token, cursor := lexer.cursor.before rest }

/-- Whether a colon may still follow a key: on its line, and not too far away. -/
def isFresh (lexer : Lexer) (key : PendingKey) : Bool :=
  key.start.line == lexer.cursor.line && lexer.cursor.index ≤ key.start.index + 1024

/-- Gives up the keys that no colon can follow any more. -/
def dropStale (lexer : Lexer) : Option Lexer :=
  let isLost := fun (key : PendingKey) => key.isRequired && !lexer.isFresh key
  if lexer.pending.any isLost || lexer.outer.any (·.any isLost) then none
  else
    some { lexer with
      pending := lexer.pending.filter lexer.isFresh
      outer := lexer.outer.map (·.filter lexer.isFresh) }

/-- Gives up the key that may start in the innermost collection. -/
def dropPending (lexer : Lexer) : Option Lexer :=
  if lexer.pending.any (·.isRequired) then none else some { lexer with pending := none }

/-- What follows may be a key, if one is allowed here. -/
def savePending (lexer : Lexer) : Option Lexer :=
  if lexer.allowsKey then do
    let lexer ← lexer.dropPending
    return { lexer with
      pending := some {
        isRequired := !lexer.inFlow && lexer.columns.head? == some lexer.cursor.column
        position := lexer.tokens.size
        start := lexer.cursor } }
  else some lexer

/-- Opens a collection in a column, unless one is open there. Its first token is put behind
`position` others. -/
def openAt (lexer : Lexer) (column position : Nat) (token : Token) : Lexer :=
  if !lexer.inFlow && lexer.columns.head?.all (· < column) then
    { lexer with
      columns := column :: lexer.columns
      tokens := lexer.tokens.insertIdxIfInBounds position token }
  else lexer

/-- Opens a collection at the place, unless one is open in its column. -/
def openHere (lexer : Lexer) (token : Token) : Option Lexer :=
  if lexer.inFlow then some lexer
  else if lexer.allowsKey then some (lexer.openAt lexer.cursor.column lexer.tokens.size token)
  else none

/-- Closes the collections that are written in lines whose columns a test accepts. -/
def closeWhile (lexer : Lexer) (test : Nat → Bool) : Lexer :=
  if lexer.inFlow then lexer
  else
    let closed := lexer.columns.takeWhile test
    { lexer with
      columns := lexer.columns.dropWhile test
      tokens := lexer.tokens ++ Array.replicate closed.length .blockEnd }

/-- Sets whether a key may start at the place. -/
def allow (lexer : Lexer) (allowsKey : Bool) : Lexer :=
  { lexer with allowsKey }

/-- A token outside of all collections, that ends before a text. -/
def outermost (lexer : Lexer) (token : Token) (rest : List Char) : Option Lexer := do
  let lexer ← (lexer.closeWhile fun _ => true).dropPending
  return (lexer.push token rest).allow false

/-- The start of a collection in brackets or braces. -/
def openFlow (lexer : Lexer) (token : Token) (rest : List Char) : Option Lexer := do
  let lexer ← lexer.savePending
  let lexer := (lexer.push token rest).allow true
  return { lexer with pending := none, outer := lexer.pending :: lexer.outer }

/-- The end of a collection in brackets or braces. -/
def closeFlow (lexer : Lexer) (token : Token) (rest : List Char) : Option Lexer := do
  let lexer ← lexer.dropPending
  let lexer := (lexer.push token rest).allow false
  match lexer.outer with
  | [] => return lexer
  | pending :: outer => return { lexer with pending, outer }

/-- What is between two entries of a collection in brackets or braces. -/
def flowEntry (lexer : Lexer) (rest : List Char) : Option Lexer := do
  return ((← lexer.dropPending).push .flowEntry rest).allow true

/-- What is before an item of a sequence that is written in lines. -/
def blockEntry (lexer : Lexer) (rest : List Char) : Option Lexer := do
  let lexer ← (← lexer.openHere .blockSequence).dropPending
  return (lexer.push .blockEntry rest).allow true

/-- What is before a key. -/
def key (lexer : Lexer) (rest : List Char) : Option Lexer := do
  let lexer ← (← lexer.openHere .blockMapping).dropPending
  return (lexer.push .key rest).allow !lexer.inFlow

/-- What is before a value. -/
def value (lexer : Lexer) (rest : List Char) : Option Lexer := do
  match lexer.pending with
  | some key =>
    let tokens := lexer.tokens.insertIdxIfInBounds key.position .key
    let lexer := { lexer with tokens, pending := none }
    let lexer := lexer.openAt key.start.column key.position .blockMapping
    return (lexer.push .value rest).allow false
  | none =>
    let lexer ← lexer.openHere .blockMapping
    return (lexer.push .value rest).allow !lexer.inFlow

/-- A token that may start a key, that ends before a text. -/
def item (lexer : Lexer) (token : Token) (rest : List Char) : Option Lexer := do
  return ((← lexer.savePending).push token rest).allow false

/-- A block of text. -/
def block (lexer : Lexer) (style : ScalarStyle) (rest : List Char) : Option Lexer := do
  let lexer ← lexer.dropPending
  let (text, rest) ← blockScalar (style == .folded) lexer.floor rest
  return (lexer.push (.scalar style text) rest).allow true

/-- A plain scalar. -/
def plain (lexer : Lexer) : Option Lexer := do
  let lexer ← lexer.savePending
  let scalar ← Yaml.plain lexer.inFlow lexer.floor .empty lexer.cursor.rest
  return (lexer.push (.scalar .plain scalar.text) scalar.rest).allow scalar.endsLine

/-- Whether a plain scalar starts with a character. -/
def startsPlain (inFlow : Bool) (c : Char) (rest : List Char) : Bool :=
  if c == '-' then true
  else if c == '?' || c == ':' then !inFlow
  else !startsWithAny ",[]\x7b\x7d#&*!|>'\"%@\x60" [c] && !atBlank (c :: rest)

/-- The next token, if the text goes on. -/
def token (lexer : Lexer) (c : Char) (rest : List Char) : Option Lexer :=
  if lexer.cursor.isLineStart && c == '%' then do
    let (directive, rest) ← directive rest
    lexer.outermost (.directive directive) rest
  else if lexer.cursor.isLineStart && isMarker (c :: rest) then
    lexer.outermost (if c == '-' then .documentStart else .documentEnd) (rest.drop 2)
  else
    match c with
    | '[' => lexer.openFlow .flowSequence rest
    | '\x7b' => lexer.openFlow .flowMapping rest
    | ']' => lexer.closeFlow .flowSequenceEnd rest
    | '\x7d' => lexer.closeFlow .flowMappingEnd rest
    | ',' => lexer.flowEntry rest
    | '*' => do
      let (name, rest) ← anchorName rest
      lexer.item (.alias name) rest
    | '&' => do
      let (name, rest) ← anchorName rest
      lexer.item (.anchor name) rest
    | '!' => do
      let (tag, rest) ← tag lexer.inFlow rest
      lexer.item tag rest
    | '\'' => do
      let (text, rest) ← singleQuoted .empty rest
      lexer.item (.scalar .quoted text) rest
    | '"' => do
      let (text, rest) ← doubleQuoted (.text .empty) rest
      lexer.item (.scalar .quoted text) rest
    | _ =>
      if c == '-' && atBlank rest then lexer.blockEntry rest
      else if c == '?' && (lexer.inFlow || atBlank rest) then lexer.key rest
      else if c == ':' && (lexer.inFlow || atBlank rest) then lexer.value rest
      else if c == '|' && !lexer.inFlow then lexer.block .literal rest
      else if c == '>' && !lexer.inFlow then lexer.block .folded rest
      else if startsPlain lexer.inFlow c rest then lexer.plain
      else none

/-- Goes on to the next content, and closes the collections that end before it. -/
def skip (lexer : Lexer) : Option Lexer := do
  let bound := lexer.cursor.rest.length
  let lead := lead lexer.inFlow (lexer.inFlow || !lexer.allowsKey) false false lexer.cursor bound
  let allowsKey := lexer.allowsKey || (lead.isBroken && !lexer.inFlow)
  let lexer ← { lexer with cursor := lead.cursor, allowsKey }.dropStale
  return lexer.closeWhile (lead.cursor.column < ·)

/-- The tokens of a text; each of them takes at least one character. -/
def run (lexer : Lexer) : (bound : Nat) → Option (List Token)
  | 0 => none
  | bound + 1 => do
    let lexer ← lexer.skip
    match lexer.cursor.rest with
    | [] =>
      let lexer ← (lexer.closeWhile fun _ => true).dropPending
      return lexer.tokens.toList
    | c :: rest => run (← lexer.token c rest) bound

end Lexer

/-- The tokens of a text; none where it is malformed. -/
def tokens? (text : List Char) : Option (List Token) :=
  if text.all isAllowed then (Lexer.start text).run (text.length + 1) else none

end CorpusFacts.Yaml
