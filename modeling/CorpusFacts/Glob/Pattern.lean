/-!
# Glob patterns

A pattern is read character by character into tokens. Two stars that make up a whole component stand
for any number of directories; what they mean depends on what comes before and after them, so they
are settled at the next character.
-/

namespace CorpusFacts.Glob

/-- A part of a pattern. -/
inductive Token where
  /-- A character that stands for itself. -/
  | literal (c : Char)
  /-- Any one byte. -/
  | anyByte
  /-- Any bytes, also none. -/
  | anyRun
  /-- Any directories at the start. -/
  | leading
  /-- Anything at the end, below what comes before. -/
  | trailing
  /-- Any directories between two components. -/
  | inner
  /-- One byte of some ranges of characters, or of none of them. -/
  | oneOf (negated : Bool) (ranges : List (Char × Char))
  /-- One of several patterns. -/
  | choice (branches : List (List Token))

/-- What is wrong with a pattern. -/
inductive Fault where
  /-- A class has no end. -/
  | unclosedClass
  /-- A range ends before it starts. -/
  | invalidRange (first last : Char)
  /-- A group of alternatives has no end. -/
  | unclosedGroup
  /-- A group of alternatives ends that has no start. -/
  | unopenedGroup
  /-- Nothing follows a backslash. -/
  | danglingEscape
  deriving DecidableEq, Repr

namespace Fault

/-- The wording of a fault. -/
def message : Fault → String
  | unclosedClass => "unclosed character class; missing ']'"
  | invalidRange first last =>
    "invalid range; '" ++ first.toString ++ "' > '" ++ last.toString ++ "'"
  | unclosedGroup =>
    "unclosed alternate group; missing '\x7d' (maybe escape '\x7b' with '[\x7b]'?)"
  | unopenedGroup =>
    "unopened alternate group; missing '\x7b' (maybe escape '\x7d' with '[\x7d]'?)"
  | danglingEscape => "dangling '\\'"

end Fault

/-- What the next character has to settle. -/
inductive Pending where
  /-- Nothing. -/
  | nothing
  /-- A star, and the character before it. -/
  | star (before : Option Char)
  /-- Two stars, and the character before them. -/
  | twoStars (before : Option Char)
  /-- A backslash. -/
  | escape
  /-- The start of a class. -/
  | classStart
  /-- A class with the ranges so far, last one first; whether no character has been read, and
  whether a hyphen waits for the end of a range. -/
  | inClass (negated : Bool) (ranges : List (Char × Char)) (isFirst inRange : Bool)
  deriving DecidableEq, Repr

/-- A group of alternatives under way. -/
structure Group where
  /-- The tokens around the group so far, last one first. -/
  outer : List Token
  /-- The finished branches, last one first. -/
  branches : List (List Token)

/-- A pattern read so far. -/
structure Reader where
  /-- The groups under way, innermost first. -/
  groups : List Group
  /-- The tokens of the branch under way, last one first. -/
  tokens : List Token
  /-- The last character. -/
  previous : Option Char
  /-- What the next character has to settle. -/
  pending : Pending

namespace Reader

/-- Nothing read. -/
def start : Reader := ⟨[], [], none, .nothing⟩

/-- One more token, with nothing left to settle. -/
def push (reader : Reader) (token : Token) : Reader :=
  { reader with tokens := token :: reader.tokens, pending := .nothing }

/-- The last token replaced by one for any directories. Directories at the start or the end take in
what follows. -/
def absorb (reader : Reader) (token : Token) : Reader :=
  match reader.tokens with
  | .leading :: _ | .trailing :: _ => { reader with pending := .nothing }
  | _ :: rest => { reader with tokens := token :: rest, pending := .nothing }
  | [] => reader.push token

/-- Two stars settled by the character that follows them; tells whether that character is a slash
that belongs to them. -/
def settleTwoStars (reader : Reader) (before next : Option Char) : Reader × Bool :=
  let plain := (reader.push .anyRun).push .anyRun
  if reader.tokens.isEmpty then
    if next == none || next == some '/' then (reader.push .leading, next.isSome)
    else (plain, false)
  else if before != some '/'
      && (reader.groups.isEmpty || (before != some ',' && before != some '\x7b')) then
    (plain, false)
  else if next == some '/' then (reader.absorb .inner, true)
  else if next == none
      || (!reader.groups.isEmpty && (next == some ',' || next == some '\x7d')) then
    (reader.absorb .trailing, false)
  else (plain, false)

/-- A character where nothing has to be settled. -/
def readPlain (reader : Reader) (c : Char) : Except Fault Reader :=
  match c with
  | '?' => .ok (reader.push .anyByte)
  | '*' => .ok { reader with pending := .star reader.previous }
  | '[' => .ok { reader with pending := .classStart }
  | '\\' => .ok { reader with pending := .escape }
  | '\x7b' => .ok { reader with
      groups := ⟨reader.tokens, []⟩ :: reader.groups, tokens := [], pending := .nothing }
  | '\x7d' =>
    match reader.groups with
    | [] => .error .unopenedGroup
    | group :: groups =>
      let branches := (reader.tokens.reverse :: group.branches).reverse
      .ok { reader with
        groups := groups, tokens := .choice branches :: group.outer, pending := .nothing }
  | ',' =>
    match reader.groups with
    | [] => .ok (reader.push (.literal ','))
    | group :: groups => .ok { reader with
        groups := { group with branches := reader.tokens.reverse :: group.branches } :: groups
        tokens := [], pending := .nothing }
  | c => .ok (reader.push (.literal c))

/-- A character of a class. -/
def readClass (reader : Reader) (negated : Bool) (ranges : List (Char × Char))
    (isFirst inRange : Bool) (c : Char) : Except Fault Reader :=
  if isFirst then
    .ok { reader with pending := .inClass negated ((c, c) :: ranges) false false }
  else if c == ']' then
    let ranges := if inRange then ('-', '-') :: ranges else ranges
    .ok (reader.push (.oneOf negated ranges.reverse))
  else if inRange then
    match ranges with
    | (first, _) :: rest =>
      if c < first then .error (.invalidRange first c)
      else .ok { reader with pending := .inClass negated ((first, c) :: rest) false false }
    | [] => .ok { reader with pending := .inClass negated [(c, c)] false false }
  else if c == '-' then
    .ok { reader with pending := .inClass negated ranges false true }
  else .ok { reader with pending := .inClass negated ((c, c) :: ranges) false false }

/-- A character after what has been read, before it is noted as the last one. -/
def readPending (reader : Reader) (c : Char) : Except Fault Reader :=
  match reader.pending with
  | .nothing => reader.readPlain c
  | .star before =>
    if c == '*' then .ok { reader with pending := .twoStars before }
    else (reader.push .anyRun).readPlain c
  | .twoStars before =>
    match reader.settleTwoStars before (some c) with
    | (settled, true) => .ok settled
    | (settled, false) => settled.readPlain c
  | .escape => .ok (reader.push (.literal c))
  | .classStart =>
    if c == '!' || c == '^' then .ok { reader with pending := .inClass true [] true false }
    else reader.readClass false [] true false c
  | .inClass negated ranges isFirst inRange => reader.readClass negated ranges isFirst inRange c

/-- One more character. -/
def read (reader : Reader) (c : Char) : Except Fault Reader := do
  let next ← reader.readPending c
  return { next with previous := some c }

/-- The end of the pattern. -/
def finish (reader : Reader) : Except Fault Reader :=
  match reader.pending with
  | .nothing => .ok reader
  | .star _ => .ok (reader.push .anyRun)
  | .twoStars before => .ok (reader.settleTwoStars before none).1
  | .escape => .error .danglingEscape
  | .classStart | .inClass .. => .error .unclosedClass

end Reader

/-- The tokens of a pattern. -/
def tokens (pattern : List Char) : Except Fault (List Token) := do
  let reader ← pattern.foldlM Reader.read Reader.start
  let reader ← reader.finish
  if reader.groups.isEmpty then return reader.tokens.reverse else .error .unclosedGroup

end CorpusFacts.Glob
