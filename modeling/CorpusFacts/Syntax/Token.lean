import CorpusFacts.Syntax.ParseError
import CorpusFacts.Text.Words

/-!
# Pieces and tokens

A source is a sequence of pieces: blanks, comments and tokens. Put together in order they are the
source again. A token is a piece that the structure of the source depends on, with its place.

A language says how the next piece is read. What follows a piece is always an end of the text behind
its first character, so reading pieces comes to an end.
-/

namespace CorpusFacts

/-- What a token is. -/
inductive TokenKind where
  /-- A word: a name, a keyword or a number. -/
  | word
  /-- A literal between quotes or slashes. -/
  | string
  /-- Any other single character. -/
  | punct (mark : Char)
  /-- An opening bracket. -/
  | opening (bracket : Bracket)
  /-- A closing bracket. -/
  | closing (bracket : Bracket)
  /-- The end of a line. -/
  | newline
  /-- A semicolon. -/
  | semicolon
  deriving DecidableEq, Repr

/-- What a piece of a source is. -/
inductive PieceKind where
  /-- A first line that names an interpreter. -/
  | interpreter
  /-- A blank. -/
  | blank
  /-- A comment up to the end of its line. -/
  | lineComment
  /-- A comment between delimiters. -/
  | blockComment
  /-- A token. -/
  | token (kind : TokenKind)
  deriving DecidableEq, Repr

/-- A part of a source with its text. -/
structure Piece where
  /-- What the part is. -/
  kind : PieceKind
  /-- Its characters. -/
  text : List Char
  deriving DecidableEq, Repr

/-- A token with its place in the source. -/
structure Token where
  /-- What the token is. -/
  kind : TokenKind
  /-- Its characters. -/
  text : List Char
  /-- The byte it starts at. -/
  start : Nat
  /-- The line it starts on, from 1. -/
  line : Nat
  deriving DecidableEq, Repr

/-- The byte after the last one of a token. -/
def Token.stop (token : Token) : Nat :=
  token.start + Text.byteLength token.text

/-- The tokens among some pieces, when the first piece starts at byte `start` of line `line`. -/
def tokensFrom (start line : Nat) : List Piece → List Token
  | [] => []
  | piece :: pieces =>
    let later := tokensFrom (start + Text.byteLength piece.text) (line + Text.newlines piece.text)
      pieces
    match piece.kind with
    | .token kind => ⟨kind, piece.text, start, line⟩ :: later
    | _ => later

/-- A literal or comment that does not end, with the text from where it starts. -/
structure OpenEnded where
  /-- What does not end. -/
  what : Unterminated
  /-- The text from its start on. -/
  text : List Char
  deriving DecidableEq, Repr

/-- How a language is cut into pieces. -/
structure PieceRule where
  /-- The kind of the piece that starts with a character, and the text behind that piece, given the
  kind of the token before and the text behind the character. -/
  next : Option TokenKind → Char → List Char → Except OpenEnded (PieceKind × List Char)
  /-- What follows a piece is an end of the text behind its first character. -/
  next_suffix : ∀ {before c text kind rest}, next before c text = .ok (kind, rest) → rest <:+ text

/-- The last token kind after a piece: its own, if it is a token. -/
def PieceKind.orBefore (before : Option TokenKind) : PieceKind → Option TokenKind
  | .token kind => some kind
  | _ => before

/-- The pieces of a text behind a token of kind `before`. -/
def PieceRule.piecesAfter (rule : PieceRule) (before : Option TokenKind) :
    List Char → Except OpenEnded (List Piece)
  | [] => .ok []
  | c :: text =>
    match found : rule.next before c text with
    | .error ended => .error ended
    | .ok (kind, rest) =>
      have : rest.length < text.length + 1 :=
        Nat.lt_succ_of_le (rule.next_suffix found).length_le
      match rule.piecesAfter (kind.orBefore before) rest with
      | .error ended => .error ended
      | .ok pieces => .ok (⟨kind, c :: text.take (text.length - rest.length)⟩ :: pieces)
termination_by text => text.length

/-- The line on which an end of a source starts. -/
def lineOfEnd (source rest : List Char) : Nat :=
  1 + (Text.newlines source - Text.newlines rest)

end CorpusFacts
