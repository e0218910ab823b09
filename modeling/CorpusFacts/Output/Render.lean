import CorpusFacts.Output.Format
import CorpusFacts.Output.Record
import CorpusFacts.Text.Words

/-!
# Rendered records

The text of a list of records in each format. It depends on the records alone.

Records are written as rows of separated values or as objects. A row ends in a line feed. In rows
separated by commas a field is quoted where it would otherwise be read differently; in rows
separated by tabs the characters that rows are made of are escaped.
-/

namespace CorpusFacts

/-- The characters that make a field need quotes. -/
def needsQuotes (c : Char) : Bool :=
  c == ',' || c == '"' || c == '\n' || c == '\r'

/-- A field in which every quote is written twice. -/
def doubleQuotes (field : List Char) : List Char :=
  Text.replace ['"'] ['"', '"'] field

/-- A field of a row separated by commas. -/
def csvField (field : List Char) : List Char :=
  if field.any needsQuotes then '"' :: (doubleQuotes field ++ ['"']) else field

/-- A field of a row separated by tabs: backslashes are escaped first, so that those of the other
escapes stay single. -/
def tsvField (field : List Char) : List Char :=
  let escaped := Text.replace ['\\'] ['\\', '\\'] field
  let escaped := Text.replace ['\t'] ['\\', 't'] escaped
  let escaped := Text.replace ['\n'] ['\\', 'n'] escaped
  Text.replace ['\r'] ['\\', 'r'] escaped

/-- A row of fields, each written by `write`. -/
def row (separator : Char) (write : List Char → List Char) (fields : List String) : List Char :=
  [separator].intercalate (fields.map fun field => write field.toList) ++ ['\n']

/-- A header and a row for every record. -/
def renderRows [Record ρ] (separator : Char) (write : List Char → List Char) (records : List ρ) :
    List Char :=
  row separator write (Record.header ρ)
    ++ records.flatMap fun record => row separator write (Record.columns record)

/-- The text of some records in a format. -/
def renderRecords [Record ρ] (format : OutputFormat) (records : List ρ) : String :=
  match format with
  | .lines => String.ofList (records.flatMap fun record => row ',' id (Record.columns record))
  | .csv => String.ofList (renderRows ',' csvField records)
  | .tsv => String.ofList (renderRows '\t' tsvField records)
  | .json => (Json.array (records.map Record.toJson)).render ++ "\n"

end CorpusFacts
