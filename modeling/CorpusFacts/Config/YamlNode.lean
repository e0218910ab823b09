import CorpusFacts.Config.YamlToken

/-!
# YAML values

A value is a scalar, a sequence, a mapping, or a reference to a value that has a name. Names are
numbered; where two values have one number, references stand for the later one.
-/

namespace CorpusFacts.Yaml

/-- Values. -/
inductive Node where
  /-- A scalar, with the number of its name and its kind if it has them. -/
  | scalar (anchor : Option Nat) (tag : Option (List Char)) (style : ScalarStyle) (text : List Char)
  /-- A sequence, with the number of its name if it has one. -/
  | sequence (anchor : Option Nat) (items : List Node)
  /-- A mapping, with the number of its name if it has one. -/
  | mapping (anchor : Option Nat) (entries : List (Node × Node))
  /-- What stands for the value whose name has a number. -/
  | reference (anchor : Nat)

namespace Node

/-- A value that is left out. -/
def empty : Node := .scalar none none .plain []

/-- Whether the name of a value has a number. -/
def isNamed (id : Nat) : Node → Bool
  | scalar anchor .. | sequence anchor _ | mapping anchor _ => anchor == some id
  | reference _ => false

mutual

/-- The last value inside a value, or the value itself, whose name has a number. -/
def named? (id : Nat) : Node → Option Node
  | scalar anchor tag style text =>
    if anchor == some id then some (scalar anchor tag style text) else none
  | sequence anchor items =>
    match namedItem? id items with
    | some node => some node
    | none => if anchor == some id then some (sequence anchor items) else none
  | mapping anchor entries =>
    match namedEntry? id entries with
    | some node => some node
    | none => if anchor == some id then some (mapping anchor entries) else none
  | reference _ => none

/-- The last value inside some items whose name has a number. -/
def namedItem? (id : Nat) : List Node → Option Node
  | [] => none
  | item :: items =>
    match namedItem? id items with
    | some node => some node
    | none => named? id item

/-- The last value inside some entries whose name has a number. -/
def namedEntry? (id : Nat) : List (Node × Node) → Option Node
  | [] => none
  | (key, value) :: entries =>
    match namedEntry? id entries with
    | some node => some node
    | none =>
      match named? id value with
      | some node => some node
      | none => named? id key

end

end Node

/-- A value inside a document. -/
structure Place where
  /-- The value of the document. -/
  root : Node
  /-- The value inside it. -/
  node : Node

namespace Place

/-- The value at a place, or the value that it stands for. -/
def value (place : Place) : Node :=
  match place.node with
  | .reference id => (place.root.named? id).getD .empty
  | node => node

/-- The place of another value in the same document. -/
def within (place : Place) (node : Node) : Place :=
  { place with node }

end Place

end CorpusFacts.Yaml
