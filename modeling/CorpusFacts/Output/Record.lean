import CorpusFacts.Output.Json

/-!
# Records

A record is one fact in the form it is written. All records of a kind have the same columns.
-/

namespace CorpusFacts

/-- A kind of records, with the layout they are written in. -/
class Record (ρ : Type) where
  /-- The names of the columns. -/
  header : List String
  /-- The text of a record in each column. -/
  columns : ρ → List String
  /-- The record as an object, with the names of the columns. -/
  toJson : ρ → Json

/-- A kind of records has at least one column, and every record has a text in each. -/
class LawfulRecord (ρ : Type) [Record ρ] : Prop where
  /-- There is a column. -/
  header_ne_nil : Record.header ρ ≠ []
  /-- There is a text for every column. -/
  length_columns (record : ρ) : (Record.columns record).length = (Record.header ρ).length

/-- A truth value in a column. -/
def truthText (value : Bool) : String :=
  if value then "true" else "false"

end CorpusFacts
