import CorpusFacts.Sources.Numeral
import CorpusFacts.Sources.PythonLayout
import CorpusFacts.Syntax.Lexeme

/-!
# Tokens of Python sources

The content of strings comes first, then lines and indentation, then all other tokens. Of the marks
that a text starts with, the token is the longest one that can follow. A word is a keyword where
that keyword can follow, and a name elsewhere.
-/

namespace CorpusFacts.Python

/-- Blanks between tokens. -/
def isBlank (c : Char) : Bool :=
  c == ' ' || ('\t' ≤ c && c ≤ '\r') || c == '\ufeff' || c == '\u2060' || c == '\u200b'

/-- Characters that names start with. -/
def startsName (c : Char) : Bool :=
  Text.isIdentifierStart c || c == '_'

/-- Marks, the longer ones first. -/
def marks : List String :=
  ["except*", "...", "**=", "//=", ">>=", "<<=", "->", ":=", "+=", "-=", "*=", "/=", "@=", "%=",
   "&=", "^=", "|=", "==", "!=", "<>", "<=", ">=", "**", "//", "<<", ">>", "(", ")", "[", "]",
   "\x7b", "\x7d", ",", ":", ".", ";", "@", "=", "<", ">", "+", "-", "*", "/", "%", "&", "|", "^",
   "~"]

/-- Digits in base ten; an underscore may be behind the last one too. -/
def decimals : Shape :=
  .sequence [.digits Char.isDigit, .optional (.oneOf "_")]

/-- Digits in another base, behind its letter; an underscore may be before the first one too. -/
def basedNumber (letters : String) (isDigit : Char → Bool) : Shape :=
  .sequence [.oneOf "0", .oneOf letters, .optional (.oneOf "_"), .digits isDigit,
    .optional (.oneOf "lL")]

/-- A power of ten. -/
def exponent : Shape :=
  .sequence [.oneOf "eE", .optional (.oneOf "+-"), decimals]

/-- Whole numbers. -/
def integerShapes : List Shape := [
  basedNumber "xX" isHexDigit, basedNumber "oO" isOctalDigit, basedNumber "bB" isBinaryDigit,
  .sequence [decimals, .optional (.oneOf "lLjJ")]]

/-- Broken numbers. -/
def floatShapes : List Shape := [
  .sequence [decimals, .oneOf ".", .optional decimals, .optional exponent, .optional (.oneOf "jJ")],
  .sequence [.oneOf ".", decimals, .optional exponent, .optional (.oneOf "jJ")],
  .sequence [decimals, exponent, .optional (.oneOf "jJ")]]

/-- The number at the start of a text: its name and length. -/
def number? (text : List Char) : Option (String × Nat) :=
  match Shape.longest integerShapes text, Shape.longest floatShapes text with
  | some whole, some broken =>
    if broken.length < whole.length then some ("<float>", text.length - broken.length)
    else some ("<integer>", text.length - whole.length)
  | some whole, none => some ("<integer>", text.length - whole.length)
  | none, some broken => some ("<float>", text.length - broken.length)
  | none, none => none

/-- The number of characters in an escape sequence behind its backslash. -/
def escapeLength? : List Char → Option Nat
  | '\r' :: '\n' :: _ => some 2
  | 'N' :: '\x7b' :: rest =>
    let name := rest.takeWhile (· != '\x7d')
    if name.isEmpty || name.length == rest.length then none else some (name.length + 3)
  | c :: rest =>
    let digits := fun (count : Nat) =>
      if (rest.take count).length == count && (rest.take count).all isHexDigit then some (count + 1)
      else none
    if c == 'u' then digits 4
    else if c == 'U' then digits 8
    else if c == 'x' then digits 2
    else if c.isDigit then some ((c :: rest).takeWhile Char.isDigit |>.take 3).length
    else if "\n'\"abfrntv\\".toList.contains c then some 1
    else none
  | [] => none

/-- The name and the length of a token that only stands in a string. -/
def embeddedToken? (expects : String → Bool) : List Char → Option (String × Nat)
  | '\\' :: rest =>
    match if expects "<escape>" then escapeLength? rest else none with
    | some length => some ("<escape>", length + 1)
    | none => if expects "\\" then some ("\\", 1) else none
  | '!' :: c :: _ =>
    if expects "<conversion>" && 'a' ≤ c && c ≤ 'z' then some ("<conversion>", 2) else none
  | _ => none

/-- The name and the length of the token that starts with a character. -/
def plainToken? (expects : String → Bool) (text : List Char) : Option (String × Nat) :=
  let mark := marks.find? fun mark => expects mark && mark.toList.isPrefixOf text
  match text with
  | [] => none
  | c :: rest =>
    if startsName c then
      match mark with
      | some mark => some (mark, mark.length)
      | none =>
        let word := String.ofList (c :: rest.takeWhile Text.isIdentifierPart)
        some (if expects word then word else "<identifier>", word.length)
    else
      match if expects "<integer>" then number? text else none with
      | some found => some found
      | none => mark.map fun mark => (mark, mark.length)

/-- The length of the comment or joined line break at the start of a text; none where there is
neither. -/
def extraLength? : List Char → Option Nat
  | '#' :: rest => some (1 + (rest.takeWhile (· != '\n')).length)
  | '\\' :: '\n' :: _ => some 2
  | '\\' :: '\r' :: '\n' :: _ => some 3
  | ['\\'] => some 1
  | _ => none

/-- What comes behind blanks, when it is no piece of a string and belongs to no line break. -/
inductive Next where
  /-- A token. -/
  | token (name : String) (length : Nat)
  /-- A comment or a joined line break. -/
  | extra (length : Nat)
  /-- The end. -/
  | finish
  /-- Something that can be no token. -/
  | malformed

/-- What comes behind the first blanks of a text, and the number of these blanks. -/
def nextOf (expects : String → Bool) (skipped : Nat) : List Char → Nat × Next
  | [] => (skipped, .finish)
  | c :: rest =>
    let format := (c :: rest).takeWhile fun c => c != '\x7b' && c != '\x7d' && c != '\n'
    if expects "<format-text>" && !format.isEmpty then
      (skipped, .token "<format-text>" format.length)
    else
      match if skipped == 0 || c != '\\' then embeddedToken? expects (c :: rest) else none with
      | some (name, length) => (skipped, .token name length)
      | none =>
        if isBlank c then nextOf expects (skipped + 1) rest
        else
          match extraLength? (c :: rest) with
          | some length => (skipped, .extra length)
          | none =>
            match plainToken? expects (c :: rest) with
            | some (name, length) => (skipped, .token name length)
            | none => (skipped, .malformed)

/-- A place in a source, and what is open there. -/
structure State where
  /-- The place. -/
  place : SourcePlace
  /-- What is open. -/
  layout : Layout

namespace State

/-- The token that starts after so many characters and has so many characters. -/
def take (state : State) (skipped : Nat) (name : String) (length : Nat) (layout : Layout) :
    Advance State :=
  let start := state.place.skip skipped
  let stop := start.skip length
  .token [name] (.between name start stop) ⟨stop, layout⟩

/-- The next piece of the innermost string, if it can follow. -/
def stringToken? (state : State) (expects : String → Bool) : Option (Advance State) :=
  match expects "<string-content>", state.layout.quotes, state.place.rest with
  | true, quote :: _, c :: rest =>
    if quote.isFormat && (c == '\x7b' || c == '\x7d') then
      if rest.head? == some c then some (state.take 0 "<escaped-brace>" 2 state.layout) else none
    else
      match stringPiece quote 0 false 0 (c :: rest) with
      | some (.content length) => some (state.take 0 "<string-content>" length state.layout)
      | some (.close length) =>
        some (state.take 0 "<string-end>" length state.layout.closeString)
      | none => none
  | _, _, _ => none

/-- The token for a line, for its indentation, or for the start of a string. -/
def layoutToken? (state : State) (expects : String → Bool) : Option (Advance State) := do
  let text := state.place.rest
  let skipsComments :=
    expects "<indent>" || expects "<dedent>" || expects "<newline>" || expects "except"
  let lead ← leadOf skipsComments false ⟨false, 0, none, []⟩ text
  match state.layout.lineToken expects lead with
  | some (name, layout) => return state.take 0 name 0 layout
  | none =>
    if lead.comment.isSome || !expects "<string-start>" then none
    else
      let (quote, length) ← openingQuote? lead.rest
      return state.take (text.length - lead.rest.length) "<string-start>" length
        (state.layout.openString quote)

/-- Whether the next character belongs to a string, of which there is no piece here. -/
def isInString (state : State) (expects : String → Bool) : Bool :=
  expects "<string-content>" && !state.layout.quotes.isEmpty && !state.place.rest.isEmpty

end State

/-- Reads the next token of a source, behind at most `bound` comments and joined line breaks. -/
def readFrom (expects : String → Bool) : (bound : Nat) → State → Advance State
  | 0, _ => .malformed
  | bound + 1, state =>
    let inString := state.isInString expects
    match if inString then state.stringToken? expects else state.layoutToken? expects with
    | some found => found
    | none =>
      match nextOf expects 0 state.place.rest with
      | (skipped, .token name length) => state.take skipped name length state.layout
      | (skipped, .extra length) =>
        readFrom expects bound { state with place := state.place.skip (skipped + length) }
      | (_, .finish) => .finish
      | (_, .malformed) => .malformed

/-- Reads the next token of a source. -/
def readToken : LexemeReader State := fun expects state =>
  readFrom expects (state.place.rest.length + 1) state

end CorpusFacts.Python
