import CorpusFacts.Properties.Lines
import CorpusFacts.Proofs.Text.Bytes
import CorpusFacts.Proofs.Text.Splitting
import Mathlib.Data.List.Induction

/-!
# Reading logical lines

A logical line is a row of physical lines, each but the last with an odd number of backslashes at
its end. It becomes one node, which covers it from its first character that is no blank.
-/

namespace CorpusFacts.Properties

/-- The ways a physical line ends. -/
inductive LineEnd where
  /-- A line feed. -/
  | feed
  /-- A carriage return and a line feed. -/
  | returnFeed
  deriving DecidableEq, Repr

namespace LineEnd

/-- What stands before the line feed. -/
def mark : LineEnd → List Char
  | feed => []
  | returnFeed => ['\r']

/-- The line end as it is written. -/
def text (ending : LineEnd) : List Char :=
  ending.mark ++ ['\n']

/-- No line feed stands before the line feed. -/
theorem feed_notMem_mark (ending : LineEnd) : '\n' ∉ ending.mark := by
  cases ending <;> decide

end LineEnd

/-- One more backslash at the end changes whether a line goes on; behind any other character it does
not. -/
theorem continues_concat (line : List Char) (c : Char) :
    continues (line ++ [c]) = (c == '\\' && !continues line) := by
  rw [continues, continues, List.reverse_append, List.reverse_singleton, List.singleton_append]
  by_cases hc : c = '\\'
  · subst hc
    rw [List.takeWhile_cons_of_pos (by rfl), List.length_cons]
    rcases Nat.mod_two_eq_zero_or_one (line.reverse.takeWhile (· == '\\')).length with h | h <;>
      simp [Nat.add_mod, h]
  · rw [List.takeWhile_cons_of_neg (by simpa using hc)]
    simp [hc]

/-- What stands before some other character, and that one, have no part in whether a line goes
on. -/
theorem continues_append {c : Char} (hc : c ≠ '\\') (first line : List Char) :
    continues (first ++ c :: line) = continues line := by
  induction line using List.reverseRecOn with
  | nil =>
    rw [continues_concat, beq_false_of_ne hc]
    rfl
  | append_singleton line d ih =>
    rw [← List.cons_append, ← List.append_assoc, continues_concat, ih, ← continues_concat]

/-- Nothing but carriage returns at the end is dropped. -/
theorem dropReturns_concat {c : Char} (hc : c ≠ '\r') (line : List Char) :
    dropReturns (line ++ [c]) = line ++ [c] := by
  rw [dropReturns, Text.dropEndWhile, List.reverse_append, List.reverse_singleton,
    List.singleton_append, List.dropWhile_cons_of_neg (by simpa using hc), List.reverse_cons,
    List.reverse_reverse]

/-- A line without carriage returns is all kept. -/
theorem dropReturns_of_notMem {line : List Char} (h : '\r' ∉ line) : dropReturns line = line := by
  rcases List.eq_nil_or_concat' line with rfl | ⟨before, c, rfl⟩
  · rfl
  · exact dropReturns_concat (by rintro rfl; simp at h) before

/-- What stands before the line feed is dropped with the carriage returns. -/
theorem dropReturns_mark (line : List Char) (ending : LineEnd) :
    dropReturns (line ++ ending.mark) = dropReturns line := by
  cases ending with
  | feed => rw [LineEnd.mark, List.append_nil]
  | returnFeed =>
    rw [LineEnd.mark, dropReturns, Text.dropEndWhile, List.reverse_append, List.reverse_singleton,
      List.singleton_append, List.dropWhile_cons_of_pos (by rfl), dropReturns, Text.dropEndWhile]

/-- Carriage returns are dropped behind the last other character only. -/
theorem dropReturns_append {c : Char} (hc : c ≠ '\r') (first line : List Char) :
    dropReturns (first ++ c :: line) = first ++ c :: dropReturns line := by
  induction line using List.reverseRecOn with
  | nil => exact dropReturns_concat hc first
  | append_singleton line d ih =>
    rw [← List.cons_append, ← List.append_assoc]
    by_cases hd : d = '\r'
    · have hdrop (text : List Char) := dropReturns_mark text .returnFeed
      subst hd
      rw [LineEnd.mark] at hdrop
      rw [hdrop, hdrop, ih]
    · rw [dropReturns_concat hd, dropReturns_concat hd, List.append_assoc, List.cons_append]

/-- What is kept of a line was on it. -/
theorem mem_of_mem_dropReturns {line : List Char} {c : Char} (h : c ∈ dropReturns line) :
    c ∈ line := by
  rw [dropReturns, Text.dropEndWhile, List.mem_reverse] at h
  exact List.mem_reverse.mp ((List.dropWhile_suffix _).subset h)

/-- A row is a physical line with something on it, and without the carriage returns that belong to
its end. -/
structure IsRow (row : List Char) : Prop where
  /-- There is something on it. -/
  ne_nil : row ≠ []
  /-- It is one line. -/
  oneLine : '\n' ∉ row
  /-- No carriage return stands at its end. -/
  ends : row.getLast? ≠ some '\r'

namespace IsRow

variable {row : List Char}

/-- A row is what is left of its line without the carriage returns. -/
theorem dropReturns_eq (h : IsRow row) (ending : LineEnd) :
    dropReturns (row ++ ending.mark) = row := by
  rw [dropReturns_mark]
  rcases List.eq_nil_or_concat' row with hnil | ⟨line, c, hrow⟩
  · exact absurd hnil h.ne_nil
  · rw [hrow] at h ⊢
    exact dropReturns_concat (by simpa using h.ends) line

/-- A line with a row on it has no line feed. -/
theorem split_eq (h : IsRow row) (ending : LineEnd) :
    Text.split '\n' (row ++ ending.mark) = [row ++ ending.mark] := by
  refine Text.splitWhere_of_none fun c hc => ?_
  rcases List.mem_append.mp hc with hc | hc
  · exact beq_false_of_ne (ne_of_mem_of_not_mem hc h.oneLine)
  · exact beq_false_of_ne (ne_of_mem_of_not_mem hc ending.feed_notMem_mark)

/-- Behind blanks it is a row still. -/
theorem indented (h : IsRow row) {margin : List Char} (hmargin : '\n' ∉ margin) :
    IsRow (margin ++ row) where
  ne_nil := by simp [h.ne_nil]
  oneLine := by simp [hmargin, h.oneLine]
  ends := by
    rw [List.getLast?_append_of_ne_nil _ h.ne_nil]
    exact h.ends

end IsRow

/-- The texts of logical lines: rows that go on, each with its line end, and one that does not. -/
inductive IsLogical : List Char → Prop
  /-- The last row. -/
  | last {row : List Char} (hrow : IsRow row) (hstops : continues row = false) : IsLogical row
  /-- A row that goes on, and what follows. -/
  | more {row rest : List Char} (ending : LineEnd) (hrow : IsRow row)
      (hcontinues : continues row = true) (hrest : IsLogical rest) :
      IsLogical (row ++ ending.text ++ rest)

/-- A row with its line end before some other text is split off. -/
theorem split_row {row : List Char} (hrow : IsRow row) (ending : LineEnd) (rest : List Char) :
    Text.split '\n' (row ++ ending.text ++ rest) =
      (row ++ ending.mark) :: Text.split '\n' rest := by
  have hline := hrow.split_eq ending
  rw [LineEnd.text, ← List.append_assoc, List.append_assoc (row ++ ending.mark),
    List.singleton_append, Text.split, Text.splitWhere_append (by rfl)]
  rw [Text.split] at hline
  rw [hline, List.singleton_append, Text.split]

namespace IsLogical

variable {text : List Char}

/-- Blanks before a logical line belong to its first row. -/
theorem indented (h : IsLogical text) {margin : List Char}
    (hblank : ∀ c ∈ margin, Text.isBlank c = true) (hmargin : '\n' ∉ margin) :
    IsLogical (margin ++ text) := by
  rcases List.eq_nil_or_concat' margin with rfl | ⟨before, blank, hlast⟩
  · exact h
  · have hslash : blank ≠ '\\' := by
      rintro rfl
      exact absurd (hblank '\\' (by simp [hlast])) (by decide)
    have hsame (row : List Char) : continues (margin ++ row) = continues row := by
      rw [hlast, List.append_assoc, List.singleton_append, continues_append hslash]
    cases h with
    | last hrow hstops => exact .last (hrow.indented hmargin) (by rw [hsame, hstops])
    | more ending hrow hcontinues hrest =>
      rw [← List.append_assoc, ← List.append_assoc]
      exact .more ending (hrow.indented hmargin) (by rw [hsame, hcontinues]) hrest

/-- A logical line that is being read becomes one node, up to the end of its last row. -/
theorem entryNodes_pending (h : IsLogical text) (ending : LineEnd) (stop offset line : Nat)
    (start first : Nat) (rest : List (List Char)) :
    entryNodes stop offset line (some (start, first))
        (Text.split '\n' (text ++ ending.mark) ++ rest) =
      entryNode start (offset + Text.byteLength text) first ::
        entryNodes stop (offset + Text.byteLength (text ++ ending.text))
          (line + Text.newlines (text ++ ending.text)) none rest := by
  have hmark (row : List Char) (ending : LineEnd) : Text.byteLength (row ++ ending.text) =
      Text.byteLength (row ++ ending.mark) + 1 := by
    rw [LineEnd.text, ← List.append_assoc, Text.byteLength_append _ ['\n']]
    rfl
  have hbreaks {row : List Char} (hrow : '\n' ∉ row) (ending : LineEnd) :
      Text.newlines (row ++ ending.text) = 1 := by
    rw [LineEnd.text, Text.newlines_append, Text.newlines_append, Text.newlines, Text.newlines,
      List.count_eq_zero_of_not_mem hrow, List.count_eq_zero_of_not_mem ending.feed_notMem_mark]
    rfl
  induction h generalizing offset line with
  | @last row hrow hstops =>
    have hdrop := hrow.dropReturns_eq ending
    rw [hrow.split_eq, List.singleton_append, entryNodes, hdrop, hmark, hbreaks hrow.oneLine]
    simp [hstops, Nat.add_assoc]
  | @more row later inner hrow hcontinues hrest ih =>
    have hdrop := hrow.dropReturns_eq inner
    have hlength := hmark row inner
    have hlines := hbreaks hrow.oneLine inner
    rw [List.append_assoc (row ++ inner.text), split_row hrow, List.cons_append, entryNodes, hdrop]
    simp only [Option.isNone_some, Bool.false_and, Bool.false_eq_true, if_false, hcontinues,
      if_true, Option.getD_some]
    rw [ih, List.append_assoc (row ++ inner.text), Text.byteLength_append (row ++ inner.text),
      Text.byteLength_append (row ++ inner.text), Text.newlines_append (row ++ inner.text), hlength,
      hlines]
    simp only [Nat.add_assoc]

/-- The first row of a logical line, with blanks before it, comes first when the text is split. -/
theorem first_row (h : IsLogical text) {margin : List Char} (hmargin : '\n' ∉ margin)
    (ending : LineEnd) :
    ∃ (row : List Char) (inner : LineEnd) (parts : List (List Char)), IsRow row ∧
      text.head? = row.head? ∧
      Text.split '\n' (margin ++ text ++ ending.mark) = (margin ++ row ++ inner.mark) :: parts := by
  cases h with
  | last hrow _ => exact ⟨text, ending, [], hrow, rfl, (hrow.indented hmargin).split_eq ending⟩
  | @more row later inner hrow _ _ =>
    refine ⟨row, inner, Text.split '\n' (later ++ ending.mark), hrow, ?_, ?_⟩
    · rw [List.append_assoc, List.head?_append_of_ne_nil _ hrow.ne_nil]
    · rw [← split_row (hrow.indented hmargin)]
      simp only [List.append_assoc]

/-- The last part of a logical line is not empty. -/
theorem physicalLines_eq (h : IsLogical text) : physicalLines text = Text.split '\n' text := by
  suffices hlast : (Text.split '\n' text).getLast? ≠ some [] by
    rw [physicalLines]
    simp [hlast]
  induction h with
  | @last row hrow _ =>
    have hline := hrow.split_eq .feed
    rw [LineEnd.mark, List.append_nil] at hline
    simpa [hline] using hrow.ne_nil
  | @more row later ending hrow _ _ ih =>
    have hne : Text.split '\n' later ≠ [] := Text.splitWhere_ne_nil _ _
    rw [split_row hrow, ← List.singleton_append, List.getLast?_append_of_ne_nil _ hne]
    exact ih

end IsLogical

/-- Whether a logical line may start with a character: no blank, and no mark of a comment. -/
def startsEntry (c : Char) : Bool :=
  !(Text.isBlank c || c == '#' || c == '!')

/-- A logical line becomes one node, from behind its leading blanks to the end of its last row. -/
theorem entryNodes_logical {text margin : List Char} (h : IsLogical text)
    (hstart : ∀ c ∈ text.head?, startsEntry c = true)
    (hblank : ∀ c ∈ margin, Text.isBlank c = true) (hmargin : '\n' ∉ margin) (ending : LineEnd)
    (stop offset line : Nat) (rest : List (List Char)) :
    entryNodes stop offset line none (Text.split '\n' (margin ++ text ++ ending.mark) ++ rest) =
      entryNode (offset + Text.byteLength margin)
          (offset + Text.byteLength (margin ++ text)) line ::
        entryNodes stop (offset + Text.byteLength (margin ++ text ++ ending.text))
          (line + Text.newlines (margin ++ text ++ ending.text)) none rest := by
  obtain ⟨row, inner, parts, hrow, hhead, hsplit⟩ := h.first_row hmargin ending
  obtain ⟨c, later, rfl⟩ := List.exists_cons_of_ne_nil hrow.ne_nil
  have hc : startsEntry c = true := hstart c hhead
  simp only [startsEntry, Bool.not_eq_true', Bool.or_eq_false_iff] at hc
  have hplain : Text.isBlank c = false := hc.1.1
  have htrim : Text.trimStart (margin ++ c :: later) = c :: later := by
    rw [Text.trimStart, List.dropWhile_append_of_pos hblank,
      List.dropWhile_cons_of_neg (by simp [hplain])]
  have hmeant : isIgnored (margin ++ c :: later) = false := by
    simp [isIgnored, htrim, hc.1.2, hc.2]
  have hleading : (margin ++ c :: later).takeWhile Text.isBlank = margin := by
    rw [List.takeWhile_append_of_pos hblank, List.takeWhile_cons_of_neg (by simp [hplain]),
      List.append_nil]
  -- From here on the line is read as one that is pending since its first character.
  rw [← (h.indented hblank hmargin).entryNodes_pending, hsplit, List.cons_append, entryNodes,
    entryNodes, (hrow.indented hmargin).dropReturns_eq]
  simp only [Option.isNone_none, Option.isNone_some, hmeant, hleading, Bool.and_false,
    Option.getD_none, Option.getD_some]

/-- A line that holds no entry is passed over. -/
theorem entryNodes_ignored {raw : List Char} (h : isIgnored (dropReturns raw) = true)
    (stop offset line : Nat) (rest : List (List Char)) :
    entryNodes stop offset line none (raw :: rest) =
      entryNodes stop (offset + Text.byteLength raw + 1) (line + 1) none rest := by
  rw [entryNodes]
  simp [h]

/-- The lines of a text are those before a line feed and those behind it. -/
theorem physicalLines_append (first rest : List Char) :
    physicalLines (first ++ '\n' :: rest) = Text.split '\n' first ++ physicalLines rest := by
  have hne : Text.split '\n' rest ≠ [] := Text.splitWhere_ne_nil _ _
  have hsplit : Text.split '\n' (first ++ '\n' :: rest) =
      Text.split '\n' first ++ Text.split '\n' rest := Text.splitWhere_append (by rfl)
  rw [physicalLines, physicalLines, hsplit, List.getLast?_append_of_ne_nil _ hne,
    List.dropLast_append_of_ne_nil hne]
  split <;> simp_all

/-- A file with one logical line, whatever line end it has or has not, is one node. -/
theorem children_tree_logical {text : List Char} (h : IsLogical text)
    (hstart : ∀ c ∈ text.head?, startsEntry c = true) (ending : Option LineEnd) :
    (tree (text ++ (ending.map LineEnd.text).getD [])).children =
      [entryNode 0 (Text.byteLength text) 1] := by
  have hread (ending : LineEnd) (stop : Nat) :
      entryNodes stop 0 1 none (Text.split '\n' (text ++ ending.mark)) =
        [entryNode 0 (Text.byteLength text) 1] := by
    have := entryNodes_logical h hstart (List.forall_mem_nil _) (by simp) ending stop 0 1 []
    simpa [entryNodes] using this
  cases ending with
  | none =>
    have hlines := h.physicalLines_eq
    have hfeed := hread .feed
    rw [LineEnd.mark, List.append_nil] at hfeed
    rw [Option.map_none, Option.getD_none, List.append_nil, tree, hlines, hfeed]
    rfl
  | some ending =>
    have hlines := physicalLines_append (text ++ ending.mark) []
    have hempty : physicalLines [] = [] := rfl
    rw [hempty, List.append_nil] at hlines
    rw [Option.map_some, Option.getD_some, LineEnd.text, ← List.append_assoc, tree, hlines, hread]
    rfl

end CorpusFacts.Properties
