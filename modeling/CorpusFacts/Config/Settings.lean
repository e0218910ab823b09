import CorpusFacts.Output.Json
import CorpusFacts.Config.YamlDocument

/-!
# Settings

Configurations come as JSON values or as YAML documents. Both are read through the same few
questions: whether a value is a text, a number, a truth value, a list, or a record of known fields.
-/

namespace CorpusFacts

/-- Values that settings are read from. An answer `none` means that the value is of another kind. -/
class Settings (δ : Type) where
  /-- The text of a value. -/
  text? : δ → Option String
  /-- The number of a value. -/
  natural? : δ → Option Nat
  /-- The truth value of a value. -/
  truth? : δ → Option Bool
  /-- Whether a value stands for some value, and not for none. -/
  isGiven? : δ → Option Bool
  /-- The items of a list. -/
  list? : δ → Option (List δ)
  /-- The values of the fields with some names, each if it is given; other fields do not matter. -/
  fields? : (names : List String) → δ → Option (List (Option δ))

namespace Settings

variable {δ : Type} [Settings δ]

/-- No value, or what `read` makes of it. -/
def optional? (read : δ → Option α) (value : δ) : Option (Option α) := do
  if ← isGiven? value then return some (← read value) else return none

/-- A list of texts. -/
def texts? (value : δ) : Option (List String) := do
  (← list? value).mapM text?

/-- What `read` makes of a field; `default` where the field is not given. -/
def field? (read : δ → Option α) (default : α) : Option δ → Option α
  | none => some default
  | some value => read value

end Settings

namespace Json

/-- The entry of an object with a name. -/
def entry? (entries : List (String × Json)) (name : String) : Option Json :=
  (entries.find? (·.1 == name)).map (·.2)

end Json

instance : Settings Json where
  text?
    | .text value => some value
    | _ => none
  natural?
    | .natural value => if value ≤ Text.maxWord then some value else none
    | _ => none
  truth?
    | .bool value => some value
    | _ => none
  isGiven?
    | .null => some false
    | _ => some true
  list?
    | .array elements => some elements
    | _ => none
  fields? names
    | .object entries => some (names.map (Json.entry? entries))
    | .array elements =>
      if elements.length ≤ names.length then
        some (elements.map some ++ List.replicate (names.length - elements.length) none)
      else none
    | _ => none

namespace Yaml

/-- The number that a plain scalar stands for: decimal without a leading zero, or in base sixteen,
eight or two. -/
def natural? (text : List Char) : Option Nat :=
  let digits :=
    match text with
    | '+' :: rest => rest
    | _ => text
  match digits with
  | '0' :: 'x' :: rest => Text.word? 16 rest
  | '0' :: 'o' :: rest => Text.word? 8 rest
  | '0' :: 'b' :: rest => Text.word? 2 rest
  | ['0'] => some 0
  | '0' :: _ => none
  | _ => Text.word? 10 digits

/-- The truth value that a plain scalar stands for. -/
def truth? (text : List Char) : Option Bool :=
  if ["true", "True", "TRUE"].contains (String.ofList text) then some true
  else if ["false", "False", "FALSE"].contains (String.ofList text) then some false
  else none

/-- Whether a plain scalar is a word for no value. -/
def isNull (text : List Char) : Bool :=
  ["null", "Null", "NULL", "~"].contains (String.ofList text)

/-- The tags of values of some kinds. -/
def kindTag (kind : String) : List Char :=
  ("tag:yaml.org,2002:" ++ kind).toList

namespace Node

/-- The text of a scalar. -/
def text? : Node → Option String
  | scalar _ _ _ text => some (String.ofList text)
  | _ => none

/-- The text of a scalar that may be of a kind other than text: one without quotes, or a block of
text with the tag of that kind. -/
def textOf? (kind : String) : Node → Option (List Char)
  | scalar _ _ .plain text => some text
  | scalar _ tag .literal text => if tag == some (kindTag kind) then some text else none
  | _ => none

/-- Whether a value stands for some value: not if it is left out, or a word for no value. A value
with the tag of no value has to be such a word. -/
def isGiven? : Node → Option Bool
  | scalar _ none .plain text => some (!text.isEmpty && !isNull text)
  | scalar _ (some tag) .plain text =>
    if tag != kindTag "null" then some true
    else if isNull text then some false
    else none
  | _ => some true

/-- Whether a value is left out, so that it stands for an empty collection too. -/
def isEmpty : Node → Bool
  | scalar _ _ .plain text => text.isEmpty
  | _ => false

end Node

/-- The values of a key among entries with scalar keys. -/
def valuesOf (entries : List (String × Place)) (name : String) : List Place :=
  (entries.filter (·.1 == name)).map (·.2)

/-- The value of a key that is given at most once. -/
def atMostOne? : List Place → Option (Option Place)
  | [] => some none
  | [value] => some (some value)
  | _ => none

namespace Place

/-- The items of a sequence. -/
def items? (place : Place) : Option (List Place) :=
  match place.value with
  | .sequence _ items => some (items.map place.within)
  | node => if node.isEmpty then some [] else none

/-- The entries of a mapping, all of whose keys are scalars. -/
def entries? (place : Place) : Option (List (String × Place)) :=
  match place.value with
  | .mapping _ entries =>
    entries.mapM fun (key, value) =>
      (place.within key).value.text?.map fun name => (name, place.within value)
  | node => if node.isEmpty then some [] else none

end Place

end Yaml

instance : Settings Yaml.Place where
  text? place := place.value.text?
  natural? place := (place.value.textOf? "int").bind Yaml.natural?
  truth? place := (place.value.textOf? "bool").bind Yaml.truth?
  isGiven? place := place.value.isGiven?
  list? place := place.items?
  fields? names place := do
    let entries ← place.entries?
    names.mapM fun name => Yaml.atMostOne? (Yaml.valuesOf entries name)

end CorpusFacts
