/-!
# Indented JSON

The data values that reports and record files are made of, and their text: two spaces for each
level, one entry on a line, empty arrays and objects on one line.
-/

namespace CorpusFacts

/-- A data value. Objects keep the order of their entries. -/
inductive Json where
  /-- No value. -/
  | null
  /-- A truth value. -/
  | bool (value : Bool)
  /-- A natural number. -/
  | natural (value : Nat)
  /-- Any other number, as it is written. -/
  | number (digits : String)
  /-- A text. -/
  | text (value : String)
  /-- A list of values. -/
  | array (elements : List Json)
  /-- Values by name. -/
  | object (entries : List (String × Json))

namespace Json

/-- A text, or no value. -/
def ofText? : Option String → Json
  | some value => text value
  | none => null

/-- A digit in base sixteen, lower case. -/
def hexDigit (n : Nat) : Char :=
  if n < 10 then Char.ofNat (48 + n) else Char.ofNat (87 + n)

/-- How a text inside quotes shows one character. -/
def escapeChar (c : Char) : List Char :=
  match c with
  | '"' => ['\\', '"']
  | '\\' => ['\\', '\\']
  | '\x08' => ['\\', 'b']
  | '\x0c' => ['\\', 'f']
  | '\n' => ['\\', 'n']
  | '\r' => ['\\', 'r']
  | '\t' => ['\\', 't']
  | c =>
    if c.toNat < 32 then ['\\', 'u', '0', '0', hexDigit (c.toNat / 16), hexDigit (c.toNat % 16)]
    else [c]

/-- A text between double quotes. -/
def quote (value : String) : String :=
  "\"" ++ String.ofList (value.toList.flatMap escapeChar) ++ "\""

/-- A line break and the indentation of a level. -/
def newLine (level : Nat) : String :=
  "\n" ++ String.ofList (List.replicate (2 * level) ' ')

mutual

/-- The text of a value at a level of indentation. -/
def renderAt (level : Nat) : Json → String
  | null => "null"
  | bool value => if value then "true" else "false"
  | natural value => toString value
  | number digits => digits
  | text value => quote value
  | array [] => "[]"
  | array (first :: rest) =>
    "[" ++ newLine (level + 1) ++ renderAt (level + 1) first ++ renderElements (level + 1) rest
      ++ newLine level ++ "]"
  | object [] => "\x7b\x7d"
  | object ((name, value) :: rest) =>
    "\x7b" ++ newLine (level + 1) ++ quote name ++ ": " ++ renderAt (level + 1) value
      ++ renderEntries (level + 1) rest ++ newLine level ++ "\x7d"

/-- The text of the elements of an array after the first. -/
def renderElements (level : Nat) : List Json → String
  | [] => ""
  | value :: rest => "," ++ newLine level ++ renderAt level value ++ renderElements level rest

/-- The text of the entries of an object after the first. -/
def renderEntries (level : Nat) : List (String × Json) → String
  | [] => ""
  | (name, value) :: rest =>
    "," ++ newLine level ++ quote name ++ ": " ++ renderAt level value ++ renderEntries level rest

end

/-- The text of a value. -/
def render (value : Json) : String :=
  value.renderAt 0

end Json

end CorpusFacts
