import CorpusFacts.Script.Literal

/-!
# From text to pieces

A script is read piece by piece. Words are made of letters, digits, underscores, dollar signs and
all characters beyond ASCII. Where an operand may start, a Groovy slash opens a literal; where none
may, it divides. So the kind of the token before decides how a slash is read.
-/

namespace CorpusFacts.Script

/-- The surface syntax of a script. -/
inductive Dialect where
  /-- Kotlin sources and Kotlin build scripts. -/
  | kotlin
  /-- Groovy build scripts. -/
  | groovy
  deriving DecidableEq, Repr

/-- Characters of words: ASCII letters and digits, underscore, dollar sign, and all beyond ASCII. -/
def isWordChar (c : Char) : Bool :=
  Text.isAsciiAlphanumeric c || c == '_' || c == '$' || 128 ≤ c.toNat

/-- Blanks between tokens of a line. -/
def isGap (c : Char) : Bool :=
  c == ' ' || c == '\t' || c == '\r' || c == '\x0c'

/-- Whether an operand may start behind a token, or at the start of a script. -/
def startsOperand : Option TokenKind → Bool
  | none => true
  | some .newline => true
  | some .semicolon => true
  | some (.opening _) => true
  | some (.punct mark) => ['=', ',', ':', '!', '&', '|', '?', '~'].contains mark
  | some .word => false
  | some .string => false
  | some (.closing _) => false

/-- The kind of the piece that starts with `c`, and the text behind that piece; `text` is what
follows `c`, and `before` the token before it. -/
def nextPiece (dialect : Dialect) (before : Option TokenKind) (c : Char) (text : List Char) :
    Except OpenEnded (PieceKind × List Char) :=
  if isGap c then .ok (.blank, text)
  else if c == '\n' then .ok (.token .newline, text)
  else if c == ';' then .ok (.token .semicolon, text)
  else if c == '/' && text.head? == some '/' then .ok (.lineComment, text.dropWhile (· != '\n'))
  else if c == '/' && text.head? == some '*' then do
    let rest ← afterBlockComment (dialect == .kotlin) (c :: text) 1 text.tail
    .ok (.blockComment, rest)
  else if c == '/' && dialect == .groovy && startsOperand before then do
    let rest ← afterSlashy text
    .ok (.token .string, rest)
  else if c == '"' || c == '\'' then do
    let rest ← afterString c text
    .ok (.token .string, rest)
  else if c == '`' then do
    let rest ← afterBacktick (c :: text) text
    .ok (.token .word, rest)
  else
    match Bracket.ofOpener? c, Bracket.ofCloser? c with
    | some bracket, _ => .ok (.token (.opening bracket), text)
    | none, some bracket => .ok (.token (.closing bracket), text)
    | none, none =>
      if isWordChar c then .ok (.token .word, text.dropWhile isWordChar)
      else .ok (.token (.punct c), text)

/-- What follows a piece is an end of the text behind its first character. -/
theorem nextPiece_suffix {dialect : Dialect} {before : Option TokenKind} {c : Char}
    {text rest : List Char} {kind : PieceKind}
    (h : nextPiece dialect before c text = .ok (kind, rest)) : rest <:+ text := by
  unfold nextPiece at h
  split at h
  · cases h; exact List.suffix_rfl
  split at h
  · cases h; exact List.suffix_rfl
  split at h
  · cases h; exact List.suffix_rfl
  split at h
  · cases h; exact List.dropWhile_suffix _
  split at h
  · cases hr : afterBlockComment (dialect == .kotlin) (c :: text) 1 text.tail with
    | error ended => rw [hr] at h; cases h
    | ok found =>
      rw [hr] at h
      cases h
      exact (afterBlockComment_suffix hr).trans (List.tail_suffix _)
  split at h
  · cases hr : afterSlashy text with
    | error ended => rw [hr] at h; cases h
    | ok found => rw [hr] at h; cases h; exact closeLiterals_suffix hr
  split at h
  · cases hr : afterString c text with
    | error ended => rw [hr] at h; cases h
    | ok found => rw [hr] at h; cases h; exact afterString_suffix hr
  split at h
  · cases hr : afterBacktick (c :: text) text with
    | error ended => rw [hr] at h; cases h
    | ok found => rw [hr] at h; cases h; exact afterBacktick_suffix hr
  split at h
  · cases h; exact List.suffix_rfl
  · cases h; exact List.suffix_rfl
  · split at h
    · cases h; exact List.dropWhile_suffix _
    · cases h; exact List.suffix_rfl

/-- How scripts of a dialect are cut into pieces. -/
def rule (dialect : Dialect) : PieceRule :=
  ⟨nextPiece dialect, nextPiece_suffix⟩

/-- The pieces of a script. A first line that starts with `#!` is one piece. -/
def pieces (dialect : Dialect) (source : List Char) : Except OpenEnded (List Piece) :=
  match source with
  | '#' :: '!' :: _ =>
    match (rule dialect).piecesAfter none (source.dropWhile (· != '\n')) with
    | .error ended => .error ended
    | .ok pieces => .ok (⟨.interpreter, source.takeWhile (· != '\n')⟩ :: pieces)
  | _ => (rule dialect).piecesAfter none source

/-- The tokens of a script with their places. -/
def tokens (dialect : Dialect) (source : List Char) : Except OpenEnded (List Token) :=
  (pieces dialect source).map (tokensFrom 0 1)

end CorpusFacts.Script
