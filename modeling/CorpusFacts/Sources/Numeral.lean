import CorpusFacts.Text.Digits

/-!
# The shapes of numbers

A number is as long as any of the shapes that a language has for numbers allows. A shape takes what
it can from the start of a text; it answers what is left, or nothing where the text does not start
so. Digits may have single underscores between them.
-/

namespace CorpusFacts

/-- What can be taken from the start of a text. -/
abbrev Shape := List Char → Option (List Char)

namespace Shape

/-- One of some characters. -/
def oneOf (marks : String) : Shape
  | c :: rest => if marks.toList.contains c then some rest else none
  | [] => none

/-- One shape after another. -/
def andThen (first second : Shape) : Shape :=
  fun text => (first text).bind second

/-- Some shapes one after the other. -/
def sequence (shapes : List Shape) : Shape :=
  shapes.foldr andThen some

/-- A shape, if the text starts with it. -/
def optional (shape : Shape) : Shape :=
  fun text => some ((shape text).getD text)

/-- What is left after more digits, each of which may have an underscore before it. -/
def moreDigits (isDigit : Char → Bool) : List Char → List Char
  | [] => []
  | c :: rest =>
    if isDigit c then moreDigits isDigit rest
    else
      match rest with
      | d :: after => if c == '_' && isDigit d then moreDigits isDigit after else c :: rest
      | [] => [c]

/-- Digits with single underscores between them. -/
def digits (isDigit : Char → Bool) : Shape
  | c :: rest => if isDigit c then some (moreDigits isDigit rest) else none
  | [] => none

/-- What is left after the longest of some shapes that a text starts with. -/
def longest (shapes : List Shape) : Shape :=
  fun text =>
    (shapes.filterMap fun shape => shape text).foldl (fun best rest =>
      match best with
      | some shortest => if rest.length < shortest.length then some rest else best
      | none => some rest) none

end Shape

/-- Digits in base sixteen. -/
def isHexDigit (c : Char) : Bool :=
  (Text.hexValue? c).isSome

/-- Digits in base eight. -/
def isOctalDigit (c : Char) : Bool :=
  '0' ≤ c && c ≤ '7'

/-- Digits in base two. -/
def isBinaryDigit (c : Char) : Bool :=
  c == '0' || c == '1'

end CorpusFacts
