import CorpusFacts.Text.Words

/-!
# Output formats

The four formats that records are written in.
-/

namespace CorpusFacts

/-- A format of records. -/
inductive OutputFormat where
  /-- A line for every record, its columns joined by commas. -/
  | lines
  /-- A header and a row for every record, separated by commas and quoted where needed. -/
  | csv
  /-- A header and a row for every record, separated by tabs and escaped where needed. -/
  | tsv
  /-- An array of objects. -/
  | json
  deriving DecidableEq, Repr

namespace OutputFormat

/-- The name of a format. -/
def name : OutputFormat → String
  | lines => "lines"
  | csv => "csv"
  | tsv => "tsv"
  | json => "json"

/-- The extension of files in a format. -/
def extension : OutputFormat → String
  | lines => "txt"
  | csv => "csv"
  | tsv => "tsv"
  | json => "json"

/-- Every format. -/
def all : List OutputFormat :=
  [lines, csv, tsv, json]

/-- The format with a name or extension, in whatever case it is written. -/
def ofName? (text : String) : Option OutputFormat :=
  let key := String.ofList (Text.asciiLower text.toList)
  all.find? fun format => format.name == key || format.extension == key

end OutputFormat

end CorpusFacts
