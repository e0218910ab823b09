import CorpusFacts.Config.YamlScalar

/-!
# YAML blocks of text

A block of text is all that is indented further than what it belongs to. Its header says whether its
lines are folded, how its last line breaks are kept, and how far it is indented if that cannot be
told from its first line.
-/

namespace CorpusFacts.Yaml

/-- How the line breaks at the end of a block of text are kept. -/
inductive Chomping where
  /-- None is kept. -/
  | strip
  /-- One is kept. -/
  | clip
  /-- All are kept. -/
  | keep
  deriving DecidableEq

namespace Chomping

/-- The chomping that a sign asks for. -/
def ofSign? (c : Char) : Option Chomping :=
  match c with
  | '+' => some keep
  | '-' => some strip
  | _ => none

end Chomping

/-- The header of a block of text. -/
structure BlockHeader where
  /-- How the last line breaks are kept. -/
  chomping : Chomping
  /-- How much further the block is indented, if the header says so. -/
  step : Option Nat

/-- The indentation that a digit asks for. -/
def indentation? (c : Char) : Option Nat :=
  if '1' ≤ c && c ≤ '9' then some (c.toNat - '0'.toNat) else none

/-- The header at the start of a text, and what follows it: a sign and a digit in any order, each of
them at most once. -/
def blockHeader : List Char → BlockHeader × List Char
  | [] => (⟨.clip, none⟩, [])
  | c :: rest =>
    match Chomping.ofSign? c, indentation? c with
    | some chomping, _ =>
      match rest.head?.bind indentation? with
      | some step => (⟨chomping, some step⟩, rest.tail)
      | none => (⟨chomping, none⟩, rest)
    | none, some step =>
      match rest.head?.bind Chomping.ofSign? with
      | some chomping => (⟨chomping, some step⟩, rest.tail)
      | none => (⟨.clip, some step⟩, rest)
    | none, none => (⟨.clip, none⟩, c :: rest)

/-- The lines after a line of which only blanks or a comment are left. -/
def endLine (inComment : Bool) : List Char → Option (List Char)
  | [] => some []
  | c :: rest =>
    if isHalfBreak c rest then endLine inComment rest
    else if isBreak c then some rest
    else if inComment || c == '#' then endLine true rest
    else if isSpace c then endLine false rest
    else none

/-- Empty lines before a line of a block of text. -/
structure Margin where
  /-- The line breaks. -/
  breaks : List Char
  /-- The column of what follows. -/
  column : Nat
  /-- The largest column that a line goes to. -/
  widest : Nat
  /-- What follows. -/
  rest : List Char

/-- The empty lines at the start of a text, after some line breaks and blanks. Spaces count up to
the indentation, if that is known; before it there is no tab. -/
def margin (indent : Option Nat) (breaks : List Char) (column widest : Nat) :
    List Char → Option Margin
  | [] => some ⟨breaks, column, max widest column, []⟩
  | c :: rest =>
    let isBefore := indent.all (column < ·)
    if isBefore && c == ' ' then margin indent breaks (column + 1) (max widest (column + 1)) rest
    else if isBefore && c == '\t' then none
    else if isHalfBreak c rest then margin indent breaks column widest rest
    else if isBreak c then margin indent (breaks ++ [breakValue c]) 0 widest rest
    else some ⟨breaks, column, widest, c :: rest⟩

/-- A block of text up to some place. -/
structure BlockText where
  /-- The text, without the line breaks at its end. -/
  text : List Char
  /-- The line break behind the last line. -/
  last : List Char
  /-- The line breaks of the empty lines after it. -/
  more : List Char
  /-- What follows. -/
  rest : List Char

/-- What the line breaks between two lines come to. In a folded block a single line break between
lines that start with no blank becomes a blank. -/
def betweenLines (isFolded : Bool) (last more : List Char) (afterBlank beforeBlank : Bool) :
    List Char :=
  if isFolded && last.head? == some '\n' && !afterBlank && !beforeBlank then
    if more.isEmpty then [' '] else more
  else last ++ more

/-- The lines of a block that is indented by `indent` blanks, after a line that starts with a blank
or not and ends in a line break, and after some empty lines. -/
def blockLines (isFolded : Bool) (indent : Nat) :
    (bound : Nat) → (afterBlank : Bool) → (last : List Char) → Margin → Option BlockText
  | 0, _, _, _ => none
  | bound + 1, afterBlank, last, before =>
    match before.rest with
    | [] => some ⟨[], last, before.breaks, []⟩
    | c :: rest =>
      if before.column != indent then some ⟨[], last, before.breaks, c :: rest⟩
      else do
        let line := (c :: rest).takeWhile (!isBreak ·)
        let behind := (c :: rest).dropWhile (!isBreak ·)
        let behind := if isHalfBreak (behind.headD ' ') behind.tail then behind.tail else behind
        let ended := (behind.head?.map breakValue).toList
        let after ← margin (some indent) [] 0 0 behind.tail
        let lines ← blockLines isFolded indent bound (isSpace c) ended after
        let between := betweenLines isFolded last before.breaks afterBlank (isSpace c)
        return { lines with text := between ++ line ++ lines.text }

/-- The block of text behind its first character, inside something that is indented by one less than
`floor`, and what follows it. -/
def blockScalar (isFolded : Bool) (floor : Nat) (text : List Char) :
    Option (List Char × List Char) := do
  let (header, rest) := blockHeader text
  let lines ← endLine false rest
  let known := header.step.map fun step => floor - 1 + step
  let before ← margin known [] 0 0 lines
  let indent := known.getD (max before.widest (max floor 1))
  let block ← blockLines isFolded indent (text.length + 1) false [] before
  let last := if header.chomping == .strip then [] else block.last
  let more := if header.chomping == .keep then block.more else []
  return (block.text ++ last ++ more, block.rest)

end CorpusFacts.Yaml
