import CorpusFacts.Output.Render
import CorpusFacts.Proofs.Text.Splitting

/-!
# Records as lines

The lines of records join columns as they are. So there is a line for each record exactly where no
column holds a line feed; elsewhere a record takes up more than one line.
-/

namespace CorpusFacts

/-- A text without line feeds. -/
def IsOneLine (text : String) : Prop :=
  '\n' ∉ text.toList

instance (text : String) : Decidable (IsOneLine text) :=
  inferInstanceAs (Decidable ('\n' ∉ text.toList))

theorem isOneLine_truthText (value : Bool) : IsOneLine (truthText value) := by
  cases value <;> decide

theorem isOneLine_repr (n : Nat) : IsOneLine n.repr := by
  rw [IsOneLine, Nat.repr_eq_ofList_toDigits, String.toList_ofList]
  intro hmem
  have hdigit := Nat.isDigit_of_mem_toDigits (by decide) (Nat.le_refl 10) hmem
  exact absurd hdigit (by decide)

/-- Written as lines, some records are as many lines as there are records. Every line is ended by a
line feed, and nothing is left behind the last one. -/
def LinePerRecord [Record ρ] (records : List ρ) : Prop :=
  ∃ lines, Text.split '\n' (renderRecords .lines records).toList = lines ++ [[]] ∧
    lines.length = records.length

/-- The line of a record, without the line feed that ends it. -/
def recordLine [Record ρ] (record : ρ) : List Char :=
  [','].intercalate ((Record.columns record).map String.toList)

theorem toList_renderRecords_lines [Record ρ] (records : List ρ) :
    (renderRecords .lines records).toList = (records.map recordLine).flatMap (· ++ ['\n']) := by
  rw [renderRecords, String.toList_ofList, List.flatMap_map]
  rfl

/-- A line is free of line feeds if its columns are. -/
theorem lineFeed_notMem_recordLine_iff [Record ρ] {record : ρ} :
    '\n' ∉ recordLine record ↔ ∀ column ∈ Record.columns record, IsOneLine column := by
  rw [recordLine, Text.notMem_intercalate_iff (by decide), List.forall_mem_map]
  rfl

/-- Lists that are not empty have together as many members as there are lists if each has one. -/
theorem length_flatMap_eq_iff {α β : Type} {items : List α} {parts : α → List β}
    (h : ∀ item, parts item ≠ []) :
    (items.flatMap parts).length = items.length ↔ ∀ item ∈ items, (parts item).length = 1 := by
  have hpos (item : α) : 0 < (parts item).length := List.length_pos_iff.mpr (h item)
  have hle (items : List α) : items.length ≤ (items.flatMap parts).length := by
    induction items with
    | nil => exact Nat.le_refl 0
    | cons item items ih =>
      have := hpos item
      rw [List.flatMap_cons, List.length_append, List.length_cons]
      omega
  induction items with
  | nil => simp
  | cons item items ih =>
    have := hpos item
    have := hle items
    rw [List.flatMap_cons, List.length_append, List.length_cons, List.forall_mem_cons]
    refine Iff.trans ?_ (and_congr_right fun _ => ih)
    omega

/-- There is a line for each record if and only if no column holds a line feed. -/
theorem linePerRecord_iff [Record ρ] {records : List ρ} :
    LinePerRecord records ↔
      ∀ record ∈ records, ∀ column ∈ Record.columns record, IsOneLine column := by
  have hsplit : Text.split '\n' (renderRecords .lines records).toList =
      records.flatMap (fun record => Text.split '\n' (recordLine record)) ++ [[]] := by
    rw [toList_renderRecords_lines, Text.split_flatMap_append, List.flatMap_map]
  calc LinePerRecord records
      ↔ (records.flatMap fun record => Text.split '\n' (recordLine record)).length =
          records.length := by simp [LinePerRecord, hsplit]
    _ ↔ ∀ record ∈ records, (Text.split '\n' (recordLine record)).length = 1 :=
        length_flatMap_eq_iff fun _ => Text.splitWhere_ne_nil _ _
    _ ↔ _ := forall₂_congr fun _ _ =>
        Text.length_split_eq_one_iff.trans lineFeed_notMem_recordLine_iff

end CorpusFacts
