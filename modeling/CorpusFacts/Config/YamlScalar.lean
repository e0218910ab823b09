import CorpusFacts.Text.Digits
import CorpusFacts.Text.Words

/-!
# YAML scalars

A scalar is written plainly, between quotes, or as a block of text. Line breaks inside it are
folded: a single one becomes a blank, and of several the first one is left out. Plain scalars end at
a colon or a comment; in a flow collection also at the characters that such collections are made of.
Every reader answers the text of the scalar together with what follows it, or nothing where the
scalar is malformed.
-/

namespace CorpusFacts.Yaml

/-- Blanks inside a line. -/
def isSpace (c : Char) : Bool :=
  c == ' ' || c == '\t'

/-- Characters that end a line. -/
def isBreak (c : Char) : Bool :=
  c == '\n' || c == '\r' || c == '\u0085' || c == '\u2028' || c == '\u2029'

/-- What a line break is in the text of a scalar. The separators of lines and paragraphs stay. -/
def breakValue (c : Char) : Char :=
  if c == '\u2028' || c == '\u2029' then c else '\n'

/-- Whether a character is only the first half of a line break. -/
def isHalfBreak (c : Char) (rest : List Char) : Bool :=
  c == '\r' && rest.head? == some '\n'

/-- Whether a text is at the end of a word: at a blank, a line break or the end. -/
def atBlank : List Char → Bool
  | [] => true
  | c :: _ => isSpace c || isBreak c

/-- Whether a line starts or ends a document. -/
def isMarker : List Char → Bool
  | '-' :: '-' :: '-' :: rest => atBlank rest
  | '.' :: '.' :: '.' :: rest => atBlank rest
  | _ => false

/-- Characters that may stand in a document. -/
def isAllowed (c : Char) : Bool :=
  c == '\t' || c == '\n' || c == '\r' || (' ' ≤ c && c ≤ '~') || c == '\u0085'
    || ('\u00a0' ≤ c && c ≤ '\ufffd') || 0x10000 ≤ c.toNat

/-- The characters that flow collections are made of. -/
def isFlowMark (c : Char) : Bool :=
  c == ',' || c == '[' || c == ']' || c == '\x7b' || c == '\x7d'

/-- Blanks and line breaks between two characters of a scalar. -/
inductive Gap where
  /-- Blanks on one line. -/
  | blanks (text : List Char)
  /-- Line breaks, the first one unless it is escaped, and so many blanks behind the last one. -/
  | breaks (first : Option Char) (more : List Char) (column : Nat)

namespace Gap

/-- Nothing between two characters. -/
def empty : Gap := .blanks []

/-- Nothing but a line break that does not count. -/
def joined : Gap := .breaks none [] 0

/-- One more blank. -/
def addBlank (c : Char) : Gap → Gap
  | .blanks text => .blanks (text ++ [c])
  | .breaks first more column => .breaks first more (column + 1)

/-- One more line break. Blanks before it do not count. -/
def addBreak (c : Char) : Gap → Gap
  | .blanks _ => .breaks (some (breakValue c)) [] 0
  | .breaks first more _ => .breaks first (more ++ [breakValue c]) 0

/-- What the blanks and line breaks come to in the text of a scalar. -/
def text : Gap → List Char
  | .blanks text => text
  | .breaks (some '\n') [] _ => [' ']
  | .breaks (some '\n') more _ => more
  | .breaks first more _ => first.toList ++ more

/-- Whether there is a line break. -/
def isBroken : Gap → Bool
  | .blanks _ => false
  | .breaks .. => true

/-- Whether there is neither a blank nor a line break. -/
def isEmpty : Gap → Bool
  | .blanks text => text.isEmpty
  | .breaks .. => false

/-- Whether what follows starts a line, with less than `floor` blanks before it. -/
def isBelow (floor : Nat) : Gap → Bool
  | .blanks _ => false
  | .breaks _ _ column => column < floor

end Gap

/-- The rest of a scalar between single quotes, after some blanks and line breaks. -/
def singleQuoted (gap : Gap) : List Char → Option (List Char × List Char)
  | [] => none
  | '\'' :: '\'' :: rest =>
    (singleQuoted .empty rest).map fun (text, rest) => (gap.text ++ '\'' :: text, rest)
  | '\'' :: rest => some (gap.text, rest)
  | c :: rest =>
    if isSpace c then singleQuoted (gap.addBlank c) rest
    else if isHalfBreak c rest then singleQuoted gap rest
    else if isBreak c then if isMarker rest then none else singleQuoted (gap.addBreak c) rest
    else (singleQuoted .empty rest).map fun (text, rest) => (gap.text ++ c :: text, rest)

/-- The character that a letter after a backslash stands for. -/
def escaped? (c : Char) : Option Char :=
  match c with
  | '0' => some '\x00'
  | 'a' => some '\x07'
  | 'b' => some '\x08'
  | 't' | '\t' => some '\t'
  | 'n' => some '\n'
  | 'v' => some '\x0b'
  | 'f' => some '\x0c'
  | 'r' => some '\r'
  | 'e' => some '\x1b'
  | ' ' | '"' | '/' | '\\' => some c
  | 'N' => some '\u0085'
  | '_' => some '\u00a0'
  | 'L' => some '\u2028'
  | 'P' => some '\u2029'
  | _ => none

/-- The number of digits of a code point after a backslash and a letter. -/
def codeDigits? (c : Char) : Option Nat :=
  match c with
  | 'x' => some 2
  | 'u' => some 4
  | 'U' => some 8
  | _ => none

/-- What a scalar between double quotes is reading. -/
inductive QuotedState where
  /-- Characters, after some blanks and line breaks. -/
  | text (gap : Gap)
  /-- The character after a backslash. -/
  | escape
  /-- The digits of a code point, last one first, with so many more to come. -/
  | code (digits : List Char) (left : Nat)

/-- The rest of a scalar between double quotes. -/
def doubleQuoted : QuotedState → List Char → Option (List Char × List Char)
  | _, [] => none
  | .text gap, c :: rest =>
    if c == '"' then some (gap.text, rest)
    else if isSpace c then doubleQuoted (.text (gap.addBlank c)) rest
    else if isHalfBreak c rest then doubleQuoted (.text gap) rest
    else if isBreak c then
      if isMarker rest then none else doubleQuoted (.text (gap.addBreak c)) rest
    else
      let (written, state) : List Char × QuotedState :=
        if c == '\\' then ([], .escape) else ([c], .text .empty)
      (doubleQuoted state rest).map fun (text, rest) => (gap.text ++ written ++ text, rest)
  | .escape, c :: rest =>
    if isHalfBreak c rest then doubleQuoted .escape rest
    else if isBreak c then if isMarker rest then none else doubleQuoted (.text .joined) rest
    else
      match codeDigits? c, escaped? c with
      | some count, _ => doubleQuoted (.code [] count) rest
      | none, some c => (doubleQuoted (.text .empty) rest).map fun (text, rest) => (c :: text, rest)
      | none, none => none
  | .code digits left, c :: rest =>
    if left > 1 then doubleQuoted (.code (c :: digits) (left - 1)) rest
    else
      match Text.codePoint? (c :: digits).reverse with
      | some c => (doubleQuoted (.text .empty) rest).map fun (text, rest) => (c :: text, rest)
      | none => none

/-- What a plain scalar comes to. -/
structure Plain where
  /-- Its text. -/
  text : List Char
  /-- Whether it ends with a line. -/
  endsLine : Bool
  /-- What follows it and the blanks behind it. -/
  rest : List Char

/-- Whether a plain scalar ends before a character, after some blanks and line breaks: at a colon or
a comment, where a document starts or ends, or where a line is not indented by `floor` blanks. -/
def endsPlain (inFlow : Bool) (floor : Nat) (gap : Gap) (c : Char) (rest : List Char) : Bool :=
  (!inFlow && gap.isBelow floor) || (gap.isBelow 1 && isMarker (c :: rest))
    || (c == '#' && !gap.isEmpty) || (c == ':' && atBlank rest) || (inFlow && isFlowMark c)

/-- The rest of a plain scalar, after some blanks and line breaks. Lines after the first are
indented by at least `floor` blanks, none of them a tab. -/
def plain (inFlow : Bool) (floor : Nat) (gap : Gap) : List Char → Option Plain
  | [] => some ⟨[], gap.isBroken, []⟩
  | c :: rest =>
    if isSpace c then
      if c == '\t' && gap.isBelow floor then none
      else plain inFlow floor (gap.addBlank c) rest
    else if isHalfBreak c rest then plain inFlow floor gap rest
    else if isBreak c then plain inFlow floor (gap.addBreak c) rest
    else if inFlow && c == ':' && rest.head?.any (fun d => d == '?' || isFlowMark d) then none
    else if endsPlain inFlow floor gap c rest then some ⟨[], gap.isBroken, c :: rest⟩
    else
      (plain inFlow floor .empty rest).map fun scalar =>
        { scalar with text := gap.text ++ c :: scalar.text }

end CorpusFacts.Yaml
