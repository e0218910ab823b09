import CorpusFacts.Proofs.Properties.LogicalLines
import CorpusFacts.Properties.Entry

/-!
# Line feeds in keys and values

The physical lines of a logical line are joined without their line feeds. So a key or a value holds
a line feed exactly where an escape in it stands for one.
-/

namespace CorpusFacts.Properties

variable {text : List Char} {c : Char}

/-- The key and the value of a logical line, with their escapes. -/
def writtenEntry (text : List Char) : List Char × List Char :=
  let (key, rest) := splitKey (joinLines false (Text.split '\n' text))
  (key, dropSeparator rest)

theorem splitEntry_eq (text : List Char) :
    splitEntry text = (unescape (writtenEntry text).1, unescape (writtenEntry text).2) := rfl

/-- Whether an escape in a text stands for a line feed. -/
def escapesFeed : List Char → Bool
  | [] => false
  | [_] => false
  | c :: d :: rest =>
    if c != '\\' then escapesFeed (d :: rest)
    else if d != 'u' then d == 'n' || escapesFeed rest
    else
      match rest with
      | h₁ :: h₂ :: h₃ :: h₄ :: more =>
        escapedChar? [h₁, h₂, h₃, h₄] == some '\n' || escapesFeed more
      | few => escapedChar? few == some '\n'

/-- A character that is not escaped stands for itself. -/
theorem escapesFeed_plain (hslash : c ≠ '\\') (rest : List Char) :
    escapesFeed (c :: rest) = escapesFeed rest := by
  cases rest with
  | nil => rfl
  | cons d rest =>
    rw [escapesFeed.eq_def]
    simp [hslash]

/-- A letter behind a backslash stands for a line feed if it is the right one. -/
theorem escapesFeed_escaped (hplain : c ≠ 'u') (rest : List Char) :
    escapesFeed ('\\' :: c :: rest) = (c == 'n' || escapesFeed rest) := by
  rw [escapesFeed.eq_def]
  simp [hplain]

/-- Four digits behind `\u` stand for a line feed if they spell its code. -/
theorem escapesFeed_unicode (h₁ h₂ h₃ h₄ : Char) (rest : List Char) :
    escapesFeed ('\\' :: 'u' :: h₁ :: h₂ :: h₃ :: h₄ :: rest) =
      (escapedChar? [h₁, h₂, h₃, h₄] == some '\n' || escapesFeed rest) := by
  simp [escapesFeed]

theorem simpleEscape_eq_feed_iff (hc : c ≠ '\n') : simpleEscape c = '\n' ↔ c = 'n' := by
  unfold simpleEscape
  split_ifs <;> simp_all

/-- An escape by digits that stands for a line feed. -/
theorem feed_mem_unicodeEscape_iff {digits : List Char} (h : '\n' ∉ digits) :
    '\n' ∈ unicodeEscape digits ↔ escapedChar? digits = some '\n' := by
  unfold unicodeEscape
  split
  · rename_i c hc
    rw [hc, List.mem_singleton, Option.some.injEq, eq_comm]
  · rename_i hnone
    simp [hnone, h]

/-- A text without line feeds has one when its escapes are undone if and only if an escape stands
for it. -/
theorem feed_mem_unescape_iff (h : '\n' ∉ text) :
    '\n' ∈ unescape text ↔ escapesFeed text = true := by
  fun_induction unescape text with
  | case1 => simp [escapesFeed]
  | case2 c => simp [escapesFeed]
  | case3 c => simpa [escapesFeed] using h
  | case4 c d rest hslash ih =>
    obtain ⟨hc, hrest⟩ := not_or.mp (List.mem_cons.not.mp h)
    rw [escapesFeed_plain (by simpa using hslash), List.mem_cons, ← ih hrest]
    exact or_iff_right hc
  | case5 c d rest hslash hplain ih =>
    obtain rfl : c = '\\' := by simpa using hslash
    obtain ⟨hd, hrest⟩ : d ≠ '\n' ∧ '\n' ∉ rest := by
      simpa [eq_comm (a := '\n')] using h
    rw [escapesFeed_escaped (by simpa using hplain), List.mem_cons, Bool.or_eq_true, ← ih hrest,
      beq_iff_eq, ← simpleEscape_eq_feed_iff hd]
    exact or_congr_left eq_comm
  | case6 c d hslash hunicode h₁ h₂ h₃ h₄ more ih =>
    obtain rfl : c = '\\' := by simpa using hslash
    obtain rfl : d = 'u' := by simpa using hunicode
    have hdigits : '\n' ∉ [h₁, h₂, h₃, h₄] := by simp_all
    have hmore : '\n' ∉ more := by simp_all
    rw [escapesFeed_unicode, List.mem_append, Bool.or_eq_true, ← ih hmore, beq_iff_eq,
      feed_mem_unicodeEscape_iff hdigits]
  | case7 c d hslash hunicode few hfew =>
    obtain rfl : c = '\\' := by simpa using hslash
    obtain rfl : d = 'u' := by simpa using hunicode
    have hdigits : '\n' ∉ few := by simp_all
    -- fewer than four digits are left, so the escape is the last thing in the text
    have hescapes : escapesFeed ('\\' :: 'u' :: few) = (escapedChar? few == some '\n') := by
      rw [escapesFeed]
      · rfl
      · exact hfew
    rw [hescapes, feed_mem_unicodeEscape_iff hdigits, beq_iff_eq]

/-- Some lines as one have no line feed if none of them has. -/
theorem feed_notMem_joinLines {joined : Bool} {lines : List (List Char)}
    (h : ∀ line ∈ lines, '\n' ∉ line) : '\n' ∉ joinLines joined lines := by
  have hkept (joined : Bool) {line : List Char} (hline : '\n' ∉ line) :
      '\n' ∉ dropReturns (if joined then Text.trimStart line else line) := by
    intro hmem
    have hmem := mem_of_mem_dropReturns hmem
    split at hmem
    · exact hline ((List.dropWhile_suffix _).subset hmem)
    · exact hline hmem
  fun_induction joinLines joined lines with
  | case1 => simp
  | case2 joined line => exact hkept joined (h line (List.mem_cons_self ..))
  | case3 joined line next rest text hcontinues ih =>
    obtain ⟨hline, hrest⟩ := List.forall_mem_cons.mp h
    exact List.not_mem_append (fun hmem => hkept joined hline (List.dropLast_subset _ hmem))
      (ih hrest)
  | case4 joined line next rest text hends ih =>
    obtain ⟨hline, hrest⟩ := List.forall_mem_cons.mp h
    exact List.not_mem_append (hkept joined hline) (ih hrest)

/-- A key and what follows it are parts of the line. -/
theorem splitKey_append (text : List Char) : (splitKey text).1 ++ (splitKey text).2 = text := by
  fun_induction splitKey text <;> simp_all

/-- What follows the separator is a part of what it is read from. -/
theorem dropSeparator_subset (text : List Char) : dropSeparator text ⊆ text := by
  unfold dropSeparator
  have hdrop : text.dropWhile isSpacing ⊆ text := List.dropWhile_subset _
  split
  · rename_i c rest heq
    rw [heq] at hdrop
    split
    · exact fun d hd => (List.cons_subset.mp hdrop).2 (List.dropWhile_subset _ hd)
    · exact hdrop
  · exact List.nil_subset text

/-- Keys and values are written without line feeds. -/
theorem feed_notMem_writtenEntry (text : List Char) :
    '\n' ∉ (writtenEntry text).1 ∧ '\n' ∉ (writtenEntry text).2 := by
  have hline : '\n' ∉ joinLines false (Text.split '\n' text) :=
    feed_notMem_joinLines fun line hline hmem => by
      simpa using Text.not_separator_of_mem_splitWhere hline _ hmem
  rw [← splitKey_append (joinLines false (Text.split '\n' text))] at hline
  obtain ⟨hkey, hrest⟩ := not_or.mp (List.mem_append.not.mp hline)
  refine ⟨hkey, fun hmem => hrest (dropSeparator_subset _ hmem)⟩

/-- A key or a value holds a line feed if and only if an escape in it stands for one. -/
theorem feed_notMem_splitEntry_iff (text : List Char) :
    ('\n' ∉ (splitEntry text).1 ↔ escapesFeed (writtenEntry text).1 = false) ∧
      ('\n' ∉ (splitEntry text).2 ↔ escapesFeed (writtenEntry text).2 = false) := by
  obtain ⟨hkey, hvalue⟩ := feed_notMem_writtenEntry text
  rw [splitEntry_eq, feed_mem_unescape_iff hkey, feed_mem_unescape_iff hvalue]
  simp only [Bool.not_eq_true, and_self]

end CorpusFacts.Properties
