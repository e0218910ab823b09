import CorpusFacts.Syntax.Grammar
import Std.Data.HashSet

/-!
# Charts

A chart holds every way in which the rules of a grammar can describe the tokens read so far. It has
a column for each place between two tokens. An item of a column is an alternative that has been read
up to some place, together with the column in which it started.

The chart says which tokens can follow, so a language whose tokens depend on what may stand
somewhere can be read token by token.
-/

namespace CorpusFacts

/-- An alternative that has been read in part. -/
structure Item where
  /-- The place in the alternatives up to which it has been read. -/
  place : Nat
  /-- The column in which the alternative started. -/
  origin : Nat
  deriving BEq, Hashable, DecidableEq

/-- An item, read one symbol further. -/
def Item.next (item : Item) : Item :=
  { item with place := item.place + 1 }

/-- A rule that describes the tokens from one column to another. -/
structure Span where
  /-- The rule. -/
  rule : Nat
  /-- The column in which it starts. -/
  start : Nat
  deriving DecidableEq

/-- What is known at a place between two tokens. -/
structure Column where
  /-- The items. -/
  items : Std.HashSet Item := ∅
  /-- The items that wait for a rule, by the rule. -/
  waiting : Std.HashMap Nat (List Item) := ∅
  /-- The items that wait for a token, by the token. -/
  expected : Std.HashMap String (List Item) := ∅
  /-- The rules that end here. -/
  ended : List Span := []

namespace Column

/-- The items that wait for a rule. -/
def waitingFor (column : Column) (rule : Nat) : List Item :=
  column.waiting.getD rule []

/-- One more item that waits for a rule. -/
def awaitRule (column : Column) (rule : Nat) (item : Item) : Column :=
  { column with waiting := column.waiting.insert rule (item :: column.waitingFor rule) }

/-- One more item that waits for a token. -/
def awaitToken (column : Column) (name : String) (item : Item) : Column :=
  { column with expected := column.expected.insert name (item :: column.expected.getD name []) }

/-- One more rule that ends here. -/
def finish (column : Column) (span : Span) : Column :=
  { column with ended := span :: column.ended }

end Column

/-- A grammar and the columns before and after the tokens that have been read. -/
structure Chart where
  /-- The grammar. -/
  grammar : Grammar
  /-- The columns before the last token. -/
  before : Array Column
  /-- The column behind the last token. -/
  last : Column

namespace Chart

/-- A column with what an item waits for, and the items that follow from it. A rule that may stand
for nothing is read past at once, so that it does not matter when such a rule ends. -/
def enter (grammar : Grammar) (before : Array Column) (item : Item) (column : Column) :
    Column × List Item :=
  match grammar.symbols[item.place]? with
  | some (.token name) => (column.awaitToken name item, [])
  | some (.rule rule) =>
    let starts :=
      if column.waiting.contains rule then []
      else (grammar.startsOf rule).map fun place => ⟨place, before.size⟩
    let past := if grammar.isEmptyRule rule then [item.next] else []
    (column.awaitRule rule item, past ++ starts)
  | some (.done rule) =>
    let around :=
      match before[item.origin]? with
      | some column => (column.waitingFor rule).map Item.next
      | none => []
    (column.finish ⟨rule, item.origin⟩, around)
  | none => (column, [])

/-- A column with some items and all that follows from them; `bound` is the number of items that may
be new. -/
def close (grammar : Grammar) (before : Array Column) (bound : Nat) (items : List Item)
    (column : Column) : Column :=
  match items with
  | [] => column
  | item :: items =>
    if column.items.contains item then close grammar before bound items column
    else
      match bound with
      | 0 => column
      | bound + 1 =>
        let (column, more) :=
          enter grammar before item { column with items := column.items.insert item }
        close grammar before bound (more ++ items) column
termination_by (bound, items.length)

/-- A chart with another column behind some others. Each of its items is a place in the alternatives
and a column that is not behind it, so their number is known. -/
def extend (grammar : Grammar) (before : Array Column) (items : List Item) : Chart :=
  { grammar, before
    last := close grammar before (grammar.symbols.size * (before.size + 1)) items {} }

/-- The chart before the first token. -/
def start (grammar : Grammar) : Chart :=
  extend grammar #[] ((grammar.startsOf 0).map fun place => ⟨place, 0⟩)

/-- Whether a token can follow. -/
def expects (chart : Chart) (name : String) : Bool :=
  chart.last.expected.contains name

/-- The chart behind one more token, which has some names; none where it cannot follow. -/
def read (chart : Chart) (names : List String) : Option Chart :=
  match names.flatMap fun name => chart.last.expected.getD name [] with
  | [] => none
  | items => some (extend chart.grammar (chart.before.push chart.last) (items.map Item.next))

/-- Whether the first rule describes all tokens. -/
def isComplete (chart : Chart) : Bool :=
  chart.last.ended.contains ⟨0, 0⟩

/-- The places, as numbers of tokens before them, between which a rule describes the tokens; in the
order in which they end. -/
def spans (chart : Chart) (name : String) : List (Nat × Nat) :=
  let rules := chart.grammar.rulesNamed name
  (chart.before.push chart.last).toList.zipIdx.flatMap fun (column, stop) =>
    (column.ended.filter (rules.contains ·.rule)).map fun span => (span.start, stop)

end Chart

end CorpusFacts
