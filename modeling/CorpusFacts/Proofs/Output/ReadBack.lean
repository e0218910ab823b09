import CorpusFacts.Gradle.PropertyEntries
import CorpusFacts.Output.Render
import CorpusFacts.Proofs.Text.Replacement

/-!
# Rows read back

A reader of rows separated by commas follows the quotes, a reader of rows separated by tabs takes a
text apart at line feeds and tabs and then resolves the escapes. Both are strict: a text that is no
sequence of whole rows is refused. Of rendered records each gives the header and then the columns of
every record, whatever characters the columns hold.
-/

namespace CorpusFacts

/-! ## Rows separated by commas -/

/-- Where in a field a reader of rows separated by commas is. -/
inductive FieldPlace where
  /-- Before its first character. -/
  | start
  /-- In a field without quotes. -/
  | bare
  /-- Between the quotes of a field. -/
  | quoted
  /-- Behind a quote in a quoted field, which ends the field or is the first of two. -/
  | quote
  deriving DecidableEq, Repr

/-- A reader of rows separated by commas. -/
structure CsvReader where
  /-- Where it is in the field under way. -/
  place : FieldPlace
  /-- What it has read of this field. -/
  field : List Char
  /-- The fields before it in the row. -/
  fields : List String
  /-- The rows before it. -/
  rows : List (List String)
  deriving DecidableEq, Repr

namespace CsvReader

variable {place : FieldPlace} {field text : List Char} {before fields : List String}
  {rows : List (List String)}

/-- A reader at the start of a field. -/
def atField (fields : List String) (rows : List (List String)) : CsvReader :=
  ⟨.start, [], fields, rows⟩

/-- Takes a character into the field. -/
def take (reader : CsvReader) (place : FieldPlace) (c : Char) : CsvReader :=
  { reader with place, field := reader.field ++ [c] }

/-- Ends the field. -/
def endField (reader : CsvReader) : CsvReader :=
  atField (reader.fields ++ [String.ofList reader.field]) reader.rows

/-- Ends the field and the row. -/
def endRow (reader : CsvReader) : CsvReader :=
  atField [] (reader.rows ++ [reader.fields ++ [String.ofList reader.field]])

/-- Reads a character. A quote stands at the start of a field or between quotes, where it is written
twice; a carriage return stands between quotes. -/
def next? (reader : CsvReader) (c : Char) : Option CsvReader :=
  match reader.place, c with
  | .quoted, '"' => some { reader with place := .quote }
  | .quoted, c => some (reader.take .quoted c)
  | .quote, '"' => some (reader.take .quoted '"')
  | .start, '"' => some { reader with place := .quoted }
  | _, ',' => some reader.endField
  | _, '\n' => some reader.endRow
  | .quote, _ | _, '"' | _, '\r' => none
  | _, c => some (reader.take .bare c)

/-- Reads a text. -/
def read? (reader : CsvReader) (text : List Char) : Option CsvReader :=
  text.foldlM next? reader

/-- The rows of a reader that is not within one. -/
def wholeRows? (reader : CsvReader) : Option (List (List String)) :=
  if reader.place = .start ∧ reader.fields = [] then some reader.rows else none

theorem read?_append (reader : CsvReader) (first second : List Char) :
    reader.read? (first ++ second) = (reader.read? first).bind (·.read? second) :=
  List.foldlM_append

theorem read?_cons (reader : CsvReader) (c : Char) (text : List Char) :
    reader.read? (c :: text) = (reader.next? c).bind (·.read? text) :=
  List.foldlM_cons

/-- A comma that is not between quotes ends the field. -/
theorem next?_comma (h : place ≠ .quoted) :
    next? ⟨place, field, fields, rows⟩ ',' = some (endField ⟨place, field, fields, rows⟩) := by
  cases place <;> first | rfl | contradiction

/-- A line feed that is not between quotes ends the row. -/
theorem next?_lineFeed (h : place ≠ .quoted) :
    next? ⟨place, field, fields, rows⟩ '\n' = some (endRow ⟨place, field, fields, rows⟩) := by
  cases place <;> first | rfl | contradiction

/-- A character that needs no quotes is taken as it is. -/
theorem next?_plain {c : Char} (hplace : place = .start ∨ place = .bare)
    (hc : needsQuotes c = false) :
    next? ⟨place, field, fields, rows⟩ c = some ⟨.bare, field ++ [c], fields, rows⟩ := by
  simp only [needsQuotes, Bool.or_eq_false_iff, beq_eq_false_iff_ne] at hc
  obtain ⟨⟨⟨hcomma, hquote⟩, hfeed⟩, hreturn⟩ := hc
  rcases hplace with rfl | rfl <;> simp [next?, take, *]

/-- A text without characters that need quotes is read as it stands. -/
theorem read?_plain (hplace : place = .start ∨ place = .bare)
    (htext : ∀ c ∈ text, needsQuotes c = false) :
    ∃ last, last ≠ .quoted ∧
      read? ⟨place, field, fields, rows⟩ text = some ⟨last, field ++ text, fields, rows⟩ := by
  induction text generalizing place field with
  | nil =>
    refine ⟨place, ?_, by simp [read?]⟩
    rcases hplace with rfl | rfl <;> decide
  | cons c text ih =>
    obtain ⟨hc, htext⟩ := List.forall_mem_cons.mp htext
    obtain ⟨last, hlast, hread⟩ := @ih .bare (field ++ [c]) (Or.inr rfl) htext
    refine ⟨last, hlast, ?_⟩
    rw [read?_cons, next?_plain hplace hc, Option.bind_some, hread, List.append_assoc,
      List.singleton_append]

/-- Between quotes, a text with its quotes doubled is read as that text. -/
theorem read?_doubleQuotes :
    read? ⟨.quoted, field, fields, rows⟩ (doubleQuotes text) =
      some ⟨.quoted, field ++ text, fields, rows⟩ := by
  rw [doubleQuotes, Text.replace_singleton]
  induction text generalizing field with
  | nil => simp [read?]
  | cons c text ih =>
    have hstep : read? ⟨.quoted, field, fields, rows⟩ (if c = '"' then ['"', '"'] else [c]) =
        some ⟨.quoted, field ++ [c], fields, rows⟩ := by
      by_cases hc : c = '"'
      · subst hc
        rfl
      · simp [hc, read?, next?, take]
    rw [List.flatMap_cons, read?_append, hstep, Option.bind_some, ih, List.append_assoc,
      List.singleton_append]

/-- A written field is read as it was, and may end there. -/
theorem read?_csvField (before : List String) (rows : List (List String)) (field : List Char) :
    ∃ place, place ≠ .quoted ∧
      (atField before rows).read? (csvField field) = some ⟨place, field, before, rows⟩ := by
  rw [csvField]
  split
  · have hopen : (atField before rows).next? '"' = some ⟨.quoted, [], before, rows⟩ := rfl
    refine ⟨.quote, by decide, ?_⟩
    rw [read?_cons, hopen, Option.bind_some, read?_append, read?_doubleQuotes, List.nil_append]
    rfl
  · rename_i hplain
    rw [Bool.not_eq_true, List.any_eq_false] at hplain
    exact read?_plain (Or.inl rfl) fun c hc => Bool.eq_false_iff.mpr (hplain c hc)

/-- A row with fields is read as those fields, behind those that the reader has before it. -/
theorem read?_row (before : List String) (rows : List (List String)) (hfields : fields ≠ []) :
    (atField before rows).read? (row ',' csvField fields) =
      some (atField [] (rows ++ [before ++ fields])) := by
  induction fields generalizing before with
  | nil => exact absurd rfl hfields
  | cons first fields ih =>
    obtain ⟨place, hplace, hread⟩ := read?_csvField before rows first.toList
    -- behind the first field comes the line feed of the row, or a comma and the rest of the row
    cases fields with
    | nil =>
      rw [row, List.map_singleton, List.intercalate_singleton, read?_append, hread,
        Option.bind_some, read?_cons, next?_lineFeed hplace]
      simp [read?, endRow]
    | cons second fields =>
      rw [row, List.map_cons, List.map_cons, List.intercalate_cons_cons, List.append_assoc,
        List.append_assoc, read?_append, hread, Option.bind_some, List.singleton_append,
        read?_cons, next?_comma hplace, Option.bind_some]
      rw [row, List.map_cons] at ih
      simpa [endField] using ih (before ++ [first]) (List.cons_ne_nil second fields)

/-- Rows with fields are read one after the other. -/
theorem read?_rows {table : List (List String)} (htable : [] ∉ table) :
    (atField [] rows).read? (table.flatMap (row ',' csvField)) =
      some (atField [] (rows ++ table)) := by
  induction table generalizing rows with
  | nil => simp [read?]
  | cons fields table ih =>
    obtain ⟨hfields, hrest⟩ := not_or.mp (List.mem_cons.not.mp htable)
    rw [List.flatMap_cons, read?_append, read?_row [] rows (Ne.symm hfields), Option.bind_some,
      ih hrest]
    simp

end CsvReader

/-- The fields of rows that are separated by commas, quoted where needed and ended by line feeds. -/
def readCsv? (text : String) : Option (List (List String)) :=
  ((CsvReader.atField [] []).read? text.toList).bind CsvReader.wholeRows?

/-! ## Rows separated by tabs -/

/-- What a character stands for behind a backslash. -/
def tsvUnescape? : Char → Option Char
  | '\\' => some '\\'
  | 't' => some '\t'
  | 'n' => some '\n'
  | 'r' => some '\r'
  | _ => none

/-- A field with its escapes resolved. -/
def tsvValue? : List Char → Option (List Char)
  | [] => some []
  | ['\\'] => none
  | '\\' :: c :: rest => do
    let value ← tsvUnescape? c
    let values ← tsvValue? rest
    return value :: values
  | c :: rest => (tsvValue? rest).map (c :: ·)

/-- The fields of a row that is separated by tabs. -/
def tsvFields? (line : List Char) : Option (List String) :=
  (Text.split '\t' line).mapM fun field => (tsvValue? field).map String.ofList

/-- The fields of rows that are separated by tabs, escaped where needed and ended by line feeds. -/
def readTsv? (text : String) : Option (List (List String)) :=
  let lines := Text.split '\n' text.toList
  if lines.getLast? = some [] then lines.dropLast.mapM tsvFields? else none

/-- How a field of a row separated by tabs shows one character. -/
def tsvEscape (c : Char) : List Char :=
  match c with
  | '\\' => ['\\', '\\']
  | '\t' => ['\\', 't']
  | '\n' => ['\\', 'n']
  | '\r' => ['\\', 'r']
  | c => [c]

/-- A field shows each of its characters by itself: no replacement touches what an earlier one has
written. -/
theorem tsvField_eq_flatMap (field : List Char) : tsvField field = field.flatMap tsvEscape := by
  simp only [tsvField, Text.replace_singleton, List.flatMap_assoc]
  congr 1
  funext c
  by_cases hslash : c = '\\'
  · subst hslash; rfl
  by_cases htab : c = '\t'
  · subst htab; rfl
  by_cases hfeed : c = '\n'
  · subst hfeed; rfl
  by_cases hreturn : c = '\r'
  · subst hreturn; rfl
  simp [tsvEscape, hslash, htab, hfeed, hreturn]

/-- No character is shown by one that rows are made of. -/
theorem notMem_tsvField (field : List Char) : '\t' ∉ tsvField field ∧ '\n' ∉ tsvField field := by
  have hescape : ∀ c, '\t' ∉ tsvEscape c ∧ '\n' ∉ tsvEscape c := by
    intro c
    unfold tsvEscape
    split
    case h_5 hslash htab hfeed hreturn => simpa using ⟨Ne.symm htab, Ne.symm hfeed⟩
    all_goals decide
  rw [tsvField_eq_flatMap]
  constructor <;> simp only [List.mem_flatMap, not_exists, not_and]
  · exact fun c _ => (hescape c).1
  · exact fun c _ => (hescape c).2

/-- What shows a character is read as that character. -/
theorem tsvValue?_tsvEscape_append (c : Char) (rest : List Char) :
    tsvValue? (tsvEscape c ++ rest) = (tsvValue? rest).map (c :: ·) := by
  unfold tsvEscape
  split
  case h_5 hslash _ _ _ =>
    rw [List.singleton_append, tsvValue?]
    · exact fun h _ => hslash h
    · exact fun _ _ h _ => hslash h
  all_goals
    simp only [List.cons_append, List.nil_append, tsvValue?, tsvUnescape?]
    cases tsvValue? rest <;> rfl

/-- The escapes of a field are resolved to the field. -/
theorem tsvValue?_tsvField (field : List Char) : tsvValue? (tsvField field) = some field := by
  rw [tsvField_eq_flatMap]
  induction field with
  | nil => rfl
  | cons c field ih => rw [List.flatMap_cons, tsvValue?_tsvEscape_append, ih, Option.map_some]

/-- A list is read back where each of its members is. -/
theorem mapM_map_eq_some {α β : Type} {write : α → β} {read? : β → Option α} {items : List α}
    (h : ∀ item ∈ items, read? (write item) = some item) :
    (items.map write).mapM read? = some items := by
  induction items with
  | nil => rfl
  | cons item items ih =>
    obtain ⟨hitem, hrest⟩ := List.forall_mem_cons.mp h
    rw [List.map_cons, List.mapM_cons, hitem, ih hrest]
    rfl

/-- The line of a row that is separated by tabs. -/
def tsvLine (fields : List String) : List Char :=
  ['\t'].intercalate (fields.map fun field => tsvField field.toList)

/-- A row stays on its line. -/
theorem lineFeed_notMem_tsvLine (fields : List String) : '\n' ∉ tsvLine fields := by
  rw [tsvLine, Text.notMem_intercalate_iff (by decide), List.forall_mem_map]
  exact fun field _ => (notMem_tsvField field.toList).2

/-- A row with fields is read as those fields. -/
theorem tsvFields?_tsvLine {fields : List String} (hfields : fields ≠ []) :
    tsvFields? (tsvLine fields) = some fields := by
  have hplain : ∀ part ∈ fields.map fun field => tsvField field.toList, '\t' ∉ part := by
    intro part hpart
    obtain ⟨field, _, rfl⟩ := List.mem_map.mp hpart
    exact (notMem_tsvField field.toList).1
  rw [tsvFields?, tsvLine, Text.split_intercalate (by simpa using hfields) hplain]
  refine mapM_map_eq_some fun field _ => ?_
  rw [tsvValue?_tsvField, Option.map_some, String.ofList_toList]

/-- Rows with fields are read one after the other. -/
theorem readTsv?_rows {rows : List (List String)} (hrows : [] ∉ rows) :
    readTsv? (String.ofList (rows.flatMap (row '\t' tsvField))) = some rows := by
  have hlines : rows.flatMap (row '\t' tsvField) = (rows.map tsvLine).flatMap (· ++ ['\n']) := by
    rw [List.flatMap_map]
    rfl
  have hsplit : (rows.map tsvLine).flatMap (Text.split '\n') = rows.map tsvLine := by
    rw [List.flatMap_map, List.map_eq_flatMap]
    exact List.flatMap_congr fun fields _ => Text.split_of_notMem (lineFeed_notMem_tsvLine fields)
  rw [readTsv?, String.toList_ofList, hlines, Text.split_flatMap_append, hsplit]
  simp only [List.getLast?_concat, if_true, List.dropLast_concat]
  exact mapM_map_eq_some fun fields hmem => tsvFields?_tsvLine (ne_of_mem_of_not_mem hmem hrows)

/-! ## Rendered records -/

/-- The header and the columns of every record. -/
def table [Record ρ] (records : List ρ) : List (List String) :=
  Record.header ρ :: records.map Record.columns

theorem renderRows_eq_flatMap [Record ρ] (separator : Char) (write : List Char → List Char)
    (records : List ρ) :
    renderRows separator write records = (table records).flatMap (row separator write) := by
  rw [renderRows, table, List.flatMap_cons, List.flatMap_map]

/-- Every row of a table has a text for each column. -/
theorem length_of_mem_table [Record ρ] [LawfulRecord ρ] {records : List ρ} {fields : List String}
    (h : fields ∈ table records) : fields.length = (Record.header ρ).length := by
  rcases List.mem_cons.mp h with rfl | h
  · rfl
  · obtain ⟨record, _, rfl⟩ := List.mem_map.mp h
    exact LawfulRecord.length_columns record

theorem nil_notMem_table [Record ρ] [LawfulRecord ρ] (records : List ρ) : [] ∉ table records :=
  fun h => LawfulRecord.header_ne_nil (List.eq_nil_of_length_eq_zero (length_of_mem_table h).symm)

/-- Rendered records are read back, whatever their columns hold: the rows of either format are the
header and then the columns of every record, and all have as many fields as the header. -/
theorem rendered_rows_read_back [Record ρ] [LawfulRecord ρ] (records : List ρ) :
    ∃ rows, rows = Record.header ρ :: records.map Record.columns ∧
      readCsv? (renderRecords .csv records) = some rows ∧
      readTsv? (renderRecords .tsv records) = some rows ∧
      ∀ fields ∈ rows, fields.length = (Record.header ρ).length := by
  have htable := nil_notMem_table records
  refine ⟨table records, rfl, ?_, ?_, fun fields => length_of_mem_table⟩
  · rw [renderRecords, renderRows_eq_flatMap, readCsv?, String.toList_ofList,
      CsvReader.read?_rows htable]
    rfl
  · rw [renderRecords, renderRows_eq_flatMap, readTsv?_rows htable]

/-- Values with quotes, separators, line breaks and backslashes, and values without characters. -/
theorem awkward_values_read_back :
    LawfulRecord Gradle.PropertyRecord ∧
      let records : List Gradle.PropertyRecord := [⟨".", "a,\"b\"", "x\r\ny\t\\n"⟩, ⟨"", "", ""⟩]
      let rows := [["module", "key", "value"], [".", "a,\"b\"", "x\r\ny\t\\n"], ["", "", ""]]
      readCsv? (renderRecords .csv records) = some rows ∧
        readTsv? (renderRecords .tsv records) = some rows ∧ ∀ fields ∈ rows, fields.length = 3 := by
  refine ⟨inferInstance, ?_⟩
  obtain ⟨rows, hrows, hcsv, htsv, hlength⟩ := rendered_rows_read_back
    [(⟨".", "a,\"b\"", "x\r\ny\t\\n"⟩ : Gradle.PropertyRecord), ⟨"", "", ""⟩]
  subst hrows
  exact ⟨hcsv, htsv, hlength⟩

end CorpusFacts
