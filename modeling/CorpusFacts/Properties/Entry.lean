import CorpusFacts.Properties.Lines
import CorpusFacts.Text.Digits

/-!
# Keys and values

The text of a logical line is a key and a value. The key ends at the first separator that no
backslash protects; one `=` or `:` and the blanks around it stand between them. Escapes are undone
in both.
-/

namespace CorpusFacts.Properties

/-- Some lines as one. A line that goes on loses its last backslash, and the next one its leading
blanks; `joined` tells whether the first line is such a next one. -/
def joinLines (joined : Bool) : List (List Char) → List Char
  | [] => []
  | [line] => dropReturns (if joined then Text.trimStart line else line)
  | line :: next :: rest =>
    let text := dropReturns (if joined then Text.trimStart line else line)
    if continues text then text.dropLast ++ joinLines true (next :: rest)
    else text ++ joinLines false (next :: rest)

/-- The blanks that may stand around a separator. -/
def isSpacing (c : Char) : Bool :=
  c == ' ' || c == '\t' || c == '\x0c'

/-- The signs that may stand between key and value. -/
def isSign (c : Char) : Bool :=
  c == '=' || c == ':'

/-- The key at the start of a line, still escaped, and what follows it. -/
def splitKey : List Char → List Char × List Char
  | [] => ([], [])
  | [c] => if isSign c || isSpacing c then ([], [c]) else ([c], [])
  | c :: d :: rest =>
    if c == '\\' then
      let (key, value) := splitKey rest
      (c :: d :: key, value)
    else if isSign c || isSpacing c then ([], c :: d :: rest)
    else
      let (key, value) := splitKey (d :: rest)
      (c :: key, value)

/-- What follows the separator between key and value. -/
def dropSeparator (text : List Char) : List Char :=
  match text.dropWhile isSpacing with
  | c :: rest => if isSign c then rest.dropWhile isSpacing else c :: rest
  | [] => []

/-- The character that the digits behind `\u` stand for; a plus sign may precede them. -/
def escapedChar? (digits : List Char) : Option Char :=
  Text.codePoint? (if digits.head? == some '+' then digits.tail else digits)

/-- What `\u` and the digits behind it stand for; themselves where that is no character. -/
def unicodeEscape (digits : List Char) : List Char :=
  match escapedChar? digits with
  | some c => [c]
  | none => '\\' :: 'u' :: digits

/-- What a character behind a backslash stands for, `u` aside. -/
def simpleEscape (c : Char) : Char :=
  if c == 't' then '\t'
  else if c == 'n' then '\n'
  else if c == 'r' then '\r'
  else if c == 'f' then '\x0c'
  else c

/-- A key or value with its escapes undone. -/
def unescape : List Char → List Char
  | [] => []
  | [c] => if c == '\\' then [] else [c]
  | c :: d :: rest =>
    if c != '\\' then c :: unescape (d :: rest)
    else if d != 'u' then simpleEscape d :: unescape rest
    else
      match rest with
      | h₁ :: h₂ :: h₃ :: h₄ :: more => unicodeEscape [h₁, h₂, h₃, h₄] ++ unescape more
      | few => unicodeEscape few

/-- The key and the value of a logical line. -/
def splitEntry (text : List Char) : List Char × List Char :=
  let (key, rest) := splitKey (joinLines false (Text.split '\n' text))
  (unescape key, unescape (dropSeparator rest))

end CorpusFacts.Properties
