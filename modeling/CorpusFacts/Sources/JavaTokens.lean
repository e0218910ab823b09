import CorpusFacts.Sources.Numeral
import CorpusFacts.Syntax.Lexeme

/-!
# Tokens of Java sources

Blanks and comments may stand between tokens, but not in a string. Of the marks that a text starts
with, the token is the longest one that can follow. A word is a keyword where that keyword can
follow, and a name elsewhere.
-/

namespace CorpusFacts.Java

/-- Blanks between tokens. -/
def isBlank (c : Char) : Bool :=
  c == ' ' || ('\t' ≤ c && c ≤ '\r')

/-- The number of characters up to the end of a comment, behind its first two. -/
def blockLength? : List Char → Option Nat
  | [] => none
  | '*' :: '/' :: _ => some 2
  | _ :: rest => (blockLength? rest).map (· + 1)

/-- The length of the blank or comment at the start of a text; none where there is neither. -/
def leadLength? : List Char → Option Nat
  | '/' :: '/' :: rest => some (2 + (rest.takeWhile (· != '\n')).length)
  | '/' :: '*' :: rest => (blockLength? rest).map (· + 2)
  | c :: _ => if isBlank c then some 1 else none
  | [] => none

/-- The next place that is neither a blank nor in a comment. -/
def skipLead (place : SourcePlace) : (bound : Nat) → SourcePlace
  | 0 => place
  | bound + 1 =>
    match leadLength? place.rest with
    | some length => skipLead (place.skip length) bound
    | none => place

/-- Characters that names start with. -/
def startsName (c : Char) : Bool :=
  Text.isIdentifierStart c || c == '_' || c == '$'

/-- Characters that names go on with. -/
def isNamePart (c : Char) : Bool :=
  Text.isIdentifierPart c || c == '_' || c == '$' || c == '\u00a2'

/-- Marks, the longer ones first. -/
def marks : List String :=
  ["@interface", "non-sealed", "\"\"\"", "...", "<<=", "->", "::", "==", "!=", "<=", "&&", "||",
   "++", "--", "+=", "-=", "*=", "/=", "&=", "|=", "^=", "%=", "<<", ";", ":", "(", ")", "\x7b",
   "\x7d", "[", "]", ",", ".", "@", "?", "=", "<", "!", "~", "+", "-", "*", "/", "%", "&", "|", "^",
   "\""]

/-- A decimal number without a leading zero. -/
def plainNumber : Shape
  | '0' :: rest => some rest
  | c :: rest =>
    if c.isDigit then
      Shape.optional (Shape.sequence [Shape.optional (Shape.oneOf "_"), Shape.digits Char.isDigit])
        rest
    else none
  | [] => none

/-- Digits in base ten. -/
def decimals : Shape :=
  Shape.digits Char.isDigit

/-- An exponent of some power. -/
def exponent (letters : String) : Shape :=
  .sequence [.oneOf letters, .optional (.oneOf "+-"), decimals]

/-- A letter for the type of a whole number. -/
def wholeSuffix : Shape :=
  .optional (.oneOf "lL")

/-- A letter for the type of a broken number. -/
def brokenSuffix : Shape :=
  .optional (.oneOf "fFdD")

/-- Digits in base sixteen. -/
def hexDigits : Shape :=
  .digits isHexDigit

/-- Numbers: whole ones in base ten, sixteen, eight and two, and broken ones in base ten and
sixteen. -/
def numberShapes : List Shape := [
  .sequence [plainNumber, wholeSuffix],
  .sequence [.oneOf "0", .oneOf "xX", hexDigits, wholeSuffix],
  .sequence [.oneOf "0", .optional (.oneOf "oO"), .digits isOctalDigit, wholeSuffix],
  .sequence [.oneOf "0", .oneOf "bB", .digits isBinaryDigit, wholeSuffix],
  .sequence [decimals, .oneOf ".", .optional decimals, .optional (exponent "eE"), brokenSuffix],
  .sequence [.oneOf ".", decimals, .optional (exponent "eE"), brokenSuffix],
  .sequence [plainNumber, exponent "eEpP", brokenSuffix],
  .sequence [plainNumber, .optional (exponent "eE"), .oneOf "fFdD"],
  .sequence [.oneOf "0", .oneOf "xX", hexDigits, .optional (.oneOf "."),
    .optional (.sequence [exponent "eEpP", brokenSuffix])],
  .sequence [.oneOf "0", .oneOf "xX", .optional hexDigits, .oneOf ".", hexDigits,
    .optional (.sequence [exponent "eEpP", brokenSuffix])]]

/-- The number of characters inside and behind a character literal, behind its first quote. -/
def characterLength? : List Char → Option Nat
  | [] => none
  | '\'' :: _ => some 1
  | '\\' :: _ :: rest => (characterLength? rest).map (· + 2)
  | c :: rest => if c == '\n' || c == '\\' then none else (characterLength? rest).map (· + 1)

/-- The number of characters in an escape sequence behind its backslash. -/
def escapeLength? : List Char → Option Nat
  | [] => none
  | 'x' :: a :: b :: _ => if [a, b].all isHexDigit then some 3 else none
  | 'u' :: '\x7b' :: rest =>
    let digits := rest.takeWhile isHexDigit
    if !digits.isEmpty && (rest.drop digits.length).head? == some '\x7d' then
      some (digits.length + 3)
    else none
  | 'u' :: a :: b :: c :: d :: _ => if [a, b, c, d].all isHexDigit then some 5 else none
  | c :: rest =>
    if c == 'x' || c == 'u' then none
    else if isOctalDigit c then some ((c :: rest).takeWhile isOctalDigit |>.take 3).length
    else some 1

/-- The name and the length of the next part of a string on one line. -/
def stringPart : List Char → Option (String × Nat)
  | '"' :: _ => some ("\"", 1)
  | '\\' :: '\x7b' :: _ => some ("\\\x7b", 2)
  | '\\' :: rest => (escapeLength? rest).map fun length => ("<characters>", length + 1)
  | text =>
    let plain := text.takeWhile fun c => c != '"' && c != '\\'
    if plain.isEmpty then none else some ("<characters>", plain.length)

/-- The name and the length of the next part of a string over several lines. -/
def textPart : List Char → Option (String × Nat)
  | '"' :: '"' :: '"' :: _ => some ("\"\"\"", 3)
  | '\\' :: '\x7b' :: _ => some ("\\\x7b", 2)
  | '\\' :: rest => if rest.isEmpty then none else some ("<lines>", 2)
  | [] => none
  | _ :: rest => some ("<lines>", 1 + (rest.takeWhile fun c => c != '"' && c != '\\').length)

/-- The names and the length of the next token outside of strings. Some marks have another name
directly behind the token before them. -/
def nextToken (expects : String → Bool) (isDirect : Bool) (text : List Char) :
    Option (List String × Nat) :=
  let mark := marks.find? fun mark => expects mark && mark.toList.isPrefixOf text
  match text with
  | [] => none
  | c :: rest =>
    if c == '>' then some (if isDirect then [">", ">!"] else [">"], 1)
    else if isDirect && c == '=' && expects "=!" then some (["=!"], 1)
    else if startsName c && !mark.any (·.length > 1) then
      let word := String.ofList (c :: rest.takeWhile isNamePart)
      some ([if expects word then word else "<identifier>"], word.length)
    else
      match if expects "<number>" then Shape.longest numberShapes text else none with
      | some behind => some (["<number>"], text.length - behind.length)
      | none =>
        if c == '\'' && rest.head? != some '\'' then
          (characterLength? rest).map fun length => (["<character>"], length + 1)
        else mark.map fun mark => ([mark], mark.length)

/-- Reads the next token of a source. -/
def readToken : LexemeReader SourcePlace := fun expects place =>
  let isString := expects "<characters>"
  let isText := expects "<lines>"
  let start := if isString || isText then place else skipLead place place.rest.length
  let found :=
    if isString then (stringPart start.rest).map fun (name, length) => ([name], length)
    else if isText then (textPart start.rest).map fun (name, length) => ([name], length)
    else nextToken expects (start.byte == place.byte) start.rest
  match found with
  | some (names, length) =>
    let stop := start.skip length
    .token names (.between (names.headD "") start stop) stop
  | none => if start.rest.isEmpty && !isString && !isText then .finish else .malformed

end CorpusFacts.Java
