import CorpusFacts.Text.Character

/-!
# Trimming and splitting

Operations on characters of a text that are cut at white space or at a separator. Splitting at a
separator gives one part more than there are separators; splitting into words gives no empty part.
-/

namespace CorpusFacts.Text

/-- The text without its leading blanks. -/
def trimStart (text : List Char) : List Char :=
  text.dropWhile isBlank

/-- The text without its trailing characters that satisfy `p`. -/
def dropEndWhile (p : Char → Bool) (text : List Char) : List Char :=
  (text.reverse.dropWhile p).reverse

/-- The text without its leading and trailing blanks. -/
def trim (text : List Char) : List Char :=
  dropEndWhile isBlank (trimStart text)

/-- A text without a byte order mark at its start. -/
def dropByteOrderMark (text : List Char) : List Char :=
  match text with
  | '\ufeff' :: rest => rest
  | _ => text

/-- The text with every blank removed. -/
def compact (text : List Char) : List Char :=
  text.filter (!isBlank ·)

/-- The parts of a text between the characters that satisfy `p`; a text without any is one part. -/
def splitWhere (p : Char → Bool) : List Char → List (List Char)
  | [] => [[]]
  | c :: rest =>
    if p c then [] :: splitWhere p rest
    else
      match splitWhere p rest with
      | [] => [[c]]
      | part :: parts => (c :: part) :: parts

/-- The parts of a text between occurrences of a separator. -/
def split (separator : Char) (text : List Char) : List (List Char) :=
  splitWhere (· == separator) text

/-- The maximal runs of non-blank characters. -/
def words (text : List Char) : List (List Char) :=
  (splitWhere isBlank text).filter (!·.isEmpty)

/-- Whether a text occurs in another, at any place. -/
def occursIn (part : List Char) : List Char → Bool
  | [] => part.isEmpty
  | c :: rest => part.isPrefixOf (c :: rest) || occursIn part rest

/-- Every occurrence of a text replaced by another, from left to right; the next `skip` characters
belong to an occurrence already replaced. -/
def replaceFrom (part new : List Char) : (skip : Nat) → List Char → List Char
  | _, [] => []
  | skip + 1, _ :: rest => replaceFrom part new skip rest
  | 0, c :: rest =>
    if part.isPrefixOf (c :: rest) then new ++ replaceFrom part new (part.length - 1) rest
    else c :: replaceFrom part new 0 rest

/-- Every occurrence of a text replaced by another. -/
def replace (part new text : List Char) : List Char :=
  replaceFrom part new 0 text

/-- What follows `start` in a text that begins with it. -/
def after? : (start text : List Char) → Option (List Char)
  | [], text => some text
  | _ :: _, [] => none
  | c :: start, d :: text => if c == d then after? start text else none

/-- The text in lower case, ASCII letters only. -/
def asciiLower (text : List Char) : List Char :=
  text.map Char.toLower

/-- The number of line breaks. -/
def newlines (text : List Char) : Nat :=
  text.count '\n'

/-- The number of lines: line breaks, and one more for a last line without one. -/
def lineCount (text : List Char) : Nat :=
  match text.getLast? with
  | none => 0
  | some last => if last == '\n' then newlines text else newlines text + 1

/-- The number of bytes of a text in UTF-8. -/
def byteLength (text : List Char) : Nat :=
  text.foldl (fun length c => length + c.utf8Size) 0

end CorpusFacts.Text
