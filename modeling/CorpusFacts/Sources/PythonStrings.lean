/-!
# Strings of Python sources

A string is read in pieces: its opening quotes, stretches of its content, and its closing quotes.
What ends a stretch depends on the letters before the opening quotes.
-/

namespace CorpusFacts.Python

/-- How a string is quoted. -/
structure Quote where
  /-- The quotation mark. -/
  mark : Char
  /-- Whether the mark is tripled, so that the string may go over several lines. -/
  isTriple : Bool
  /-- Whether a backslash stands for itself. -/
  isRaw : Bool
  /-- Whether there may be expressions between braces. -/
  isFormat : Bool
  /-- Whether the string stands for bytes. -/
  isBytes : Bool

/-- The letters that may stand before a string, in either case. -/
def isQuoteLetter (c : Char) : Bool :=
  "fFrRbBuU".toList.contains c

/-- The opening quotes at the start of a text, and how many characters they are made of. -/
def openingQuote? (text : List Char) : Option (Quote × Nat) :=
  let letters := text.takeWhile isQuoteLetter
  let has := fun (c : Char) => letters.any (·.toLower == c)
  match text.drop letters.length with
  | [] => none
  | mark :: rest =>
    if mark == '\'' || mark == '"' || mark == '\x60' then
      let isTriple := mark != '\x60' && [mark, mark].isPrefixOf rest
      let length := letters.length + if isTriple then 3 else 1
      some (⟨mark, isTriple, has 'r', has 'f', has 'b'⟩, length)
    else none

/-- A piece of a string behind its opening quotes, with its length. -/
inductive StringPiece where
  /-- A stretch of the content. -/
  | content (length : Nat)
  /-- The closing quotes. -/
  | close (length : Nat)

/-- A stretch of content, if there is any. -/
def someContent (hasContent : Bool) (length : Nat) : Option StringPiece :=
  if hasContent then some (.content length) else none

/-- The number of characters, behind a backslash that stands for itself, that have no meaning: a
quotation mark or another backslash, and a line break. -/
def rawLength (mark : Char) (text : List Char) : Nat :=
  let quoted := if text.head?.any fun c => c == mark || c == '\\' then 1 else 0
  match text.drop quoted with
  | '\r' :: '\n' :: _ => quoted + 2
  | '\r' :: _ | '\n' :: _ => quoted + 1
  | _ => quoted

/-- The piece that a quotation mark belongs to. Fewer marks than close a string are content. -/
def pieceAtMark (quote : Quote) (hasContent : Bool) (length : Nat) (rest : List Char) :
    Option StringPiece :=
  if !quote.isTriple then some (if hasContent then .content length else .close (length + 1))
  else if [quote.mark, quote.mark].isPrefixOf rest then
    some (if hasContent then .content length else .close (length + 3))
  else some (.content (length + if rest.head? == some quote.mark then 2 else 1))

/-- The next piece of a string. So many characters of it are known, and `skip` more have no meaning.
A string on one line goes over its end only where a stretch starts. -/
def stringPiece (quote : Quote) (skip : Nat) (hasContent : Bool) (length : Nat) :
    List Char → Option StringPiece
  | [] => none
  | c :: rest =>
    match skip with
    | skip + 1 => stringPiece quote skip hasContent (length + 1) rest
    | 0 =>
      if quote.isFormat && (c == '\x7b' || c == '\x7d') then someContent hasContent length
      else if c == '\\' then
        if quote.isRaw then
          stringPiece quote (rawLength quote.mark rest) hasContent (length + 1) rest
        else if quote.isBytes && rest.head?.any "NuU".toList.contains then
          stringPiece quote 2 true (length + 1) rest
        else someContent hasContent length
      else if c == quote.mark then pieceAtMark quote hasContent length rest
      else if c == '\n' && hasContent && !quote.isTriple then none
      else stringPiece quote 0 true (length + 1) rest

end CorpusFacts.Python
