import CorpusFacts.Syntax.SourceUnit

/-!
# Logical lines of properties files

A properties file has one entry a logical line. Blank lines and comment lines count for nothing, and
a line that ends in an odd number of backslashes goes on with the next one.
-/

namespace CorpusFacts.Properties

/-- The lines of a text without their line breaks; a break at the end starts no line. -/
def physicalLines (text : List Char) : List (List Char) :=
  let parts := Text.split '\n' text
  if parts.getLast? == some [] then parts.dropLast else parts

/-- A line without carriage returns at its end. -/
def dropReturns (line : List Char) : List Char :=
  Text.dropEndWhile (· == '\r') line

/-- Whether a line ends in an odd number of backslashes. -/
def continues (line : List Char) : Bool :=
  (line.reverse.takeWhile (· == '\\')).length % 2 == 1

/-- Whether a line holds no entry: it is blank or a comment. -/
def isIgnored (line : List Char) : Bool :=
  match Text.trimStart line with
  | [] => true
  | c :: _ => c == '#' || c == '!'

/-- The node of a logical line. -/
def entryNode (start stop line : Nat) : Node :=
  .mk .property none start stop line []

/-- The nodes of the logical lines among some physical lines. The first of these starts at byte
`offset` on line `line`; `pending` is the start and line of a logical line that goes on there, and
`stop` the byte where one ends that the file breaks off. -/
def entryNodes (stop : Nat) (offset line : Nat) (pending : Option (Nat × Nat)) :
    List (List Char) → List Node
  | [] =>
    match pending with
    | some (start, first) => [entryNode start (max stop start) first]
    | none => []
  | raw :: rest =>
    let text := dropReturns raw
    let next := offset + Text.byteLength raw + 1
    if pending.isNone && isIgnored text then entryNodes stop next (line + 1) none rest
    else
      let blanks := Text.byteLength (text.takeWhile Text.isBlank)
      let (start, first) := pending.getD (offset + blanks, line)
      if continues text then entryNodes stop next (line + 1) (some (start, first)) rest
      else
        entryNode start (offset + Text.byteLength text) first
          :: entryNodes stop next (line + 1) none rest

/-- The syntax tree of a properties file. -/
def tree (source : List Char) : Node :=
  let stop := Text.byteLength (Text.dropEndWhile (fun c => c == '\n' || c == '\r') source)
  .mk .properties none 0 (Text.byteLength source) 1
    (entryNodes stop 0 1 none (physicalLines source))

end CorpusFacts.Properties
