import CorpusFacts.Config.YamlBlock

/-!
# YAML tokens

A document is made of marks that open and close collections, of scalars, and of names: an anchor
names a value, an alias stands for a named value, and a tag says what kind of value it is.
-/

namespace CorpusFacts.Yaml

/-- How a scalar is written. -/
inductive ScalarStyle where
  /-- Without quotes. -/
  | plain
  /-- Between quotes. -/
  | quoted
  /-- As a block whose line breaks are kept. -/
  | literal
  /-- As a block whose line breaks are folded. -/
  | folded
  deriving DecidableEq

/-- What a line before a document says about it. -/
inductive Directive where
  /-- The version of the language. -/
  | version (major minor : Nat)
  /-- What a handle in tags stands for. -/
  | tag (handle text : List Char)

/-- Tokens. -/
inductive Token where
  /-- A line before a document. -/
  | directive (directive : Directive)
  /-- The start of a document. -/
  | documentStart
  /-- The end of a document. -/
  | documentEnd
  /-- The start of a sequence that is written in lines. -/
  | blockSequence
  /-- The start of a mapping that is written in lines. -/
  | blockMapping
  /-- The end of a collection that is written in lines. -/
  | blockEnd
  /-- The start of a sequence between brackets. -/
  | flowSequence
  /-- The end of a sequence between brackets. -/
  | flowSequenceEnd
  /-- The start of a mapping between braces. -/
  | flowMapping
  /-- The end of a mapping between braces. -/
  | flowMappingEnd
  /-- What is between two entries of a collection in brackets or braces. -/
  | flowEntry
  /-- What is before an item of a sequence in lines. -/
  | blockEntry
  /-- What is before a key. -/
  | key
  /-- What is before a value. -/
  | value
  /-- A name that stands for a value. -/
  | alias (name : List Char)
  /-- The name of a value. -/
  | anchor (name : List Char)
  /-- The kind of a value. -/
  | tag (handle suffix : List Char)
  /-- A scalar. -/
  | scalar (style : ScalarStyle) (text : List Char)

/-- The characters of names. -/
def isNameChar (c : Char) : Bool :=
  c.isAlphanum || c == '_' || c == '-'

/-- Whether a text goes on with one of some characters. -/
def startsWithAny (marks : String) (text : List Char) : Bool :=
  text.head?.any marks.toList.contains

/-- The name of an anchor, and what follows it. -/
def anchorName (text : List Char) : Option (List Char × List Char) :=
  let name := text.takeWhile isNameChar
  let rest := text.dropWhile isNameChar
  if !name.isEmpty && (atBlank rest || startsWithAny "?:,]\x7d%@\x60" rest) then
    some (name, rest)
  else none

/-- The characters of tags; some of them only between angle brackets. -/
def isTagChar (isLong : Bool) (c : Char) : Bool :=
  isNameChar c || ";/?:@&=+$.!~*'()".toList.contains c || (isLong && ",[]".toList.contains c)

/-- How many bytes follow the first byte of a character. -/
def bytesAfter? (byte : Nat) : Option Nat :=
  if byte < 0x80 then some 0
  else if byte < 0xc0 then none
  else if byte < 0xe0 then some 1
  else if byte < 0xf0 then some 2
  else if byte < 0xf8 then some 3
  else none

/-- The longest text that may be part of a tag, with `more` bytes of a character to come, and what
follows it. Bytes may be written as a percent sign and two digits. -/
def tagText (isLong : Bool) (more : Nat) : List Char → Option (List Char × List Char)
  | [] => if more == 0 then some ([], []) else none
  | '%' :: high :: low :: rest => do
    let byte ← Text.number? 16 [high, low]
    let more ←
      match more with
      | 0 => bytesAfter? byte
      | more + 1 => if 0x80 ≤ byte && byte < 0xc0 then some more else none
    let (text, rest) ← tagText isLong more rest
    return (Char.ofNat byte :: text, rest)
  | c :: rest =>
    if more != 0 || c == '%' then none
    else if isTagChar isLong c then
      (tagText isLong 0 rest).map fun (text, rest) => (c :: text, rest)
    else some ([], c :: rest)

/-- A part of a tag that is not empty, and what follows it. -/
def someTagText (isLong : Bool) (text : List Char) : Option (List Char × List Char) := do
  let (part, rest) ← tagText isLong 0 text
  if part.isEmpty then none else return (part, rest)

/-- A handle, from its exclamation mark on, and what follows it: another exclamation mark ends it.
-/
def tagHandle (text : List Char) : List Char × List Char :=
  let name := text.takeWhile isNameChar
  match text.dropWhile isNameChar with
  | '!' :: rest => ('!' :: name ++ ['!'], rest)
  | rest => ('!' :: name, rest)

/-- Whether a handle has a name or a second exclamation mark, so that it ends with one. -/
def isNamedHandle (handle : List Char) : Bool :=
  handle.length > 1 && handle.getLast? == some '!'

/-- The tag behind an exclamation mark, and what follows it. -/
def tag (inFlow : Bool) (text : List Char) : Option (Token × List Char) := do
  let (token, rest) ←
    match text with
    | '<' :: rest => do
      match ← someTagText true rest with
      | (suffix, '>' :: rest) => some (Token.tag [] suffix, rest)
      | _ => none
    | _ => do
      let (handle, rest) := tagHandle text
      if isNamedHandle handle then
        let (suffix, rest) ← someTagText false rest
        some (.tag handle suffix, rest)
      else
        let (suffix, rest) ← tagText false 0 rest
        let suffix := handle.tail ++ suffix
        some (if suffix.isEmpty then .tag [] ['!'] else .tag ['!'] suffix, rest)
  if atBlank rest || (inFlow && rest.head? == some ',') then return (token, rest) else none

/-- A number of a version, and what follows it. -/
def versionNumber (text : List Char) : Option (Nat × List Char) := do
  let digits := text.takeWhile Char.isDigit
  if digits.length > 9 then none
  return (← Text.number? 10 digits, text.dropWhile Char.isDigit)

/-- What follows the name of a directive, as far as it matters, and the rest of the line. -/
def directiveBody (name : String) (text : List Char) : Option (Directive × List Char) := do
  match name with
  | "YAML" =>
    match ← versionNumber text with
    | (major, '.' :: rest) =>
      let (minor, rest) ← versionNumber rest
      return (.version major minor, rest)
    | _ => none
  | "TAG" =>
    match text with
    | '!' :: rest =>
      let (handle, rest) := tagHandle rest
      if handle.getLast? != some '!' || !rest.head?.any isSpace then none
      let (text, rest) ← someTagText true (rest.dropWhile isSpace)
      if atBlank rest then return (.tag handle text, rest) else none
    | _ => none
  | _ => none

/-- The directive behind a percent sign, and the lines after it. -/
def directive (text : List Char) : Option (Directive × List Char) := do
  let name := text.takeWhile isNameChar
  let rest := text.dropWhile isNameChar
  if !atBlank rest then none
  let (directive, rest) ← directiveBody (String.ofList name) (rest.dropWhile isSpace)
  return (directive, ← endLine false rest)

end CorpusFacts.Yaml
