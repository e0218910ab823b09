import CorpusFacts.Proofs.Properties.LogicalLines
import CorpusFacts.Proofs.Analysis.TextSurvey
import CorpusFacts.Proofs.Text.LineEndings
import CorpusFacts.Properties.Entry

/-!
# Properties files with other line ends

A physical line is read without the carriage returns at its end. So with a carriage return before
each line feed a properties file has the same logical lines, at the same places, and they hold the
same keys and values.
-/

namespace CorpusFacts.Properties

open Text

/-- A carriage return at the end of a line is dropped, also without the blanks before the line. -/
theorem dropReturns_trimStart_return (line : List Char) :
    dropReturns (trimStart (line ++ ['\r'])) = dropReturns (trimStart line) := by
  rw [trimStart, trimStart, List.dropWhile_append]
  split
  · rename_i hnil
    rw [List.isEmpty_iff] at hnil
    rw [hnil]
    rfl
  · exact dropReturns_mark _ .returnFeed

/-- Lines that are joined make up the same line with carriage returns before line feeds. -/
theorem joinLines_withReturns (joined : Bool) (text : List Char) :
    joinLines joined (split '\n' (withReturns text)) = joinLines joined (split '\n' text) := by
  induction text using lines_induction generalizing joined with
  | last line hline => rw [withReturns_of_notMem hline]
  | more line rest hline ih =>
    have hdrop : dropReturns (if joined then trimStart (line ++ ['\r']) else line ++ ['\r']) =
        dropReturns (if joined then trimStart line else line) := by
      cases joined
      · exact dropReturns_mark line .returnFeed
      · exact dropReturns_trimStart_return line
    have hreturn : '\n' ∉ line ++ ['\r'] := by simp [hline]
    obtain ⟨next, parts, hparts⟩ := List.exists_cons_of_ne_nil (splitWhere_ne_nil (· == '\n') rest)
    obtain ⟨other, others, hothers⟩ := List.exists_cons_of_ne_nil
      (splitWhere_ne_nil (· == '\n') (withReturns rest))
    rw [withReturns_append, withReturns_of_notMem hline, withReturns_break, List.append_cons,
      split_append_cons hreturn, split_append_cons hline]
    rw [← split] at hparts hothers
    rw [hparts, hothers] at ih ⊢
    rw [joinLines, joinLines, hdrop, ih, ih]

/-- A logical line has the same key and value. -/
theorem splitEntry_withReturns (text : List Char) :
    splitEntry (withReturns text) = splitEntry text := by
  rw [splitEntry, splitEntry, joinLines_withReturns]

section Nodes

variable {source read row later : List Char} {stop otherStop : Nat}

/-- What is left without characters of a kind at the end is a start of the text. -/
theorem dropEndWhile_prefix (p : Char → Bool) (text : List Char) :
    dropEndWhile p text <+: text := by
  rw [← List.reverse_suffix, dropEndWhile, List.reverse_reverse]
  exact List.dropWhile_suffix p

/-- A logical line that goes on starts at the same place in both texts, or none goes on in either. -/
def PendingAlike (source : List Char) (pending otherPending : Option (Nat × Nat)) : Prop :=
  Option.Rel (fun start other => SameByte source start.1 other.1) pending otherPending

/-- Places on a line are the same behind the same place. -/
theorem sameByte_row {part : List Char} (hsource : source = read ++ row ++ later)
    (hrow : '\n' ∉ row) (hpart : part <+: row) :
    SameByte source (byteLength read + byteLength part)
      (byteLength (withReturns read) + byteLength part) := by
  obtain ⟨rest, rfl⟩ := hpart
  rw [List.mem_append, not_or] at hrow
  refine ⟨read ++ part, rest ++ later, by simp [hsource], (byteLength_append ..).symm, ?_⟩
  rw [withReturns_append, withReturns_of_notMem hrow.1, byteLength_append]

/-- The nodes of a row and of those behind it lie at the same places, if those of the others do
whatever logical line goes on there. -/
theorem entryNodes_row {pending otherPending : Option (Nat × Nat)} {line otherLine : Nat}
    {rest others : List (List Char)} (ending : LineEnd) (hsource : source = read ++ row ++ later)
    (hrow : '\n' ∉ row)
    (hpending : PendingAlike source pending otherPending)
    (hrest : ∀ pending otherPending,
      PendingAlike source pending otherPending →
        Node.AllAlike (Node.SameRange source)
          (entryNodes stop (byteLength read + byteLength row + 1) (line + 1) pending rest)
          (entryNodes otherStop
            (byteLength (withReturns read) + byteLength (row ++ ending.mark) + 1) (otherLine + 1)
            otherPending others)) :
    Node.AllAlike (Node.SameRange source)
      (entryNodes stop (byteLength read) line pending (row :: rest))
      (entryNodes otherStop (byteLength (withReturns read)) otherLine otherPending
        ((row ++ ending.mark) :: others)) := by
  have hkept : dropReturns row <+: row := dropEndWhile_prefix _ row
  have hblanks := (List.takeWhile_prefix Text.isBlank (l := dropReturns row)).trans hkept
  have hnone : otherPending.isNone = pending.isNone := by cases hpending <;> rfl
  -- The logical line at hand starts before this row, or at its first character that is no blank.
  have hstart : SameByte source
      (pending.getD (byteLength read + byteLength ((dropReturns row).takeWhile isBlank), line)).1
      (otherPending.getD (byteLength (withReturns read) +
        byteLength ((dropReturns row).takeWhile isBlank), otherLine)).1 := by
    cases hpending with
    | some h => exact h
    | none => exact sameByte_row hsource hrow hblanks
  rw [entryNodes, entryNodes, dropReturns_mark, hnone]
  split
  · exact hrest none none .none
  · split
    · exact hrest _ _ (.some hstart)
    · exact .cons ⟨rfl, hstart, sameByte_row hsource hrow hkept⟩ .nil (hrest none none .none)

/-- A logical line that the file breaks off ends at the same place. -/
theorem entryNodes_nil {pending otherPending : Option (Nat × Nat)} (line otherLine : Nat)
    {offset otherOffset : Nat} (hstop : SameByte source stop otherStop)
    (hpending : PendingAlike source pending otherPending) :
    Node.AllAlike (Node.SameRange source) (entryNodes stop offset line pending [])
      (entryNodes otherStop otherOffset otherLine otherPending []) := by
  cases hpending with
  | none => exact .nil
  | some hstart => exact .cons ⟨rfl, hstart, hstop.later hstart⟩ .nil .nil

/-- The logical lines of a text lie at the same places with carriage returns before line feeds. -/
theorem entryNodes_withReturns {text : List Char} {pending otherPending : Option (Nat × Nat)}
    (line otherLine : Nat) (hsource : source = read ++ text)
    (hstop : SameByte source stop otherStop)
    (hpending : PendingAlike source pending otherPending) :
    Node.AllAlike (Node.SameRange source)
      (entryNodes stop (byteLength read) line pending (physicalLines text))
      (entryNodes otherStop (byteLength (withReturns read)) otherLine otherPending
        (physicalLines (withReturns text))) := by
  induction text using lines_induction generalizing read line otherLine pending otherPending with
  | last row hrow =>
    rw [withReturns_of_notMem hrow, physicalLines, split_of_notMem hrow]
    cases row with
    | nil => exact entryNodes_nil line otherLine hstop hpending
    | cons c row =>
      have hsplit : source = read ++ (c :: row) ++ [] := by rw [hsource, List.append_nil]
      have hnodes := entryNodes_row .feed hsplit hrow hpending fun _ _ hpending =>
        entryNodes_nil (line + 1) (otherLine + 1) hstop hpending
      rw [LineEnd.mark, List.append_nil] at hnodes
      exact hnodes
  | more row rest hrow ih =>
    have hreturn : '\n' ∉ row ++ ['\r'] := by simp [hrow]
    have hlines := physicalLines_append row rest
    have hothers := physicalLines_append (row ++ ['\r']) (withReturns rest)
    rw [split_of_notMem hrow] at hlines
    rw [split_of_notMem hreturn] at hothers
    rw [hlines, withReturns_append, withReturns_of_notMem hrow, withReturns_break,
      List.append_cons, hothers]
    have hsplit : source = read ++ row ++ ('\n' :: rest) := by rw [hsource, List.append_assoc]
    refine entryNodes_row .returnFeed hsplit hrow hpending fun pending otherPending hpending => ?_
    have hread : source = (read ++ row ++ ['\n']) ++ rest := by rw [hsplit]; simp
    have hnodes := ih (line + 1) (otherLine + 1) hread hpending
    have hbyte : byteLength (read ++ row ++ ['\n']) = byteLength read + byteLength row + 1 := by
      rw [byteLength_append, byteLength_append]
      rfl
    have hotherByte : byteLength (withReturns (read ++ row ++ ['\n'])) =
        byteLength (withReturns read) + byteLength (row ++ ['\r']) + 1 := by
      rw [withReturns_append, withReturns_append, withReturns_of_notMem hrow, byteLength_append,
        byteLength_append, byteLength_append]
      rfl
    rw [hbyte, hotherByte] at hnodes
    exact hnodes

/-- The tree of a properties file has nodes at the same places with carriage returns before line
feeds. -/
theorem tree_withReturns (source : List Char) :
    Node.AllAlike (Node.SameRange source) [tree source] [tree (withReturns source)] := by
  have hwhole : SameByte source (byteLength source) (byteLength (withReturns source)) :=
    ⟨source, [], (List.append_nil _).symm, rfl, rfl⟩
  have hstop : SameByte source
      (byteLength (dropEndWhile (fun c => c == '\n' || c == '\r') source))
      (byteLength (dropEndWhile (fun c => c == '\n' || c == '\r') (withReturns source))) := by
    obtain ⟨rest, hrest⟩ := dropEndWhile_prefix (fun c => c == '\n' || c == '\r') source
    rw [dropEndWhile_withReturns (by decide)]
    exact ⟨_, rest, hrest.symm, rfl, rfl⟩
  exact .cons ⟨rfl, ⟨[], source, rfl, rfl, rfl⟩, hwhole⟩
    (entryNodes_withReturns 1 1 (List.nil_append _).symm hstop .none) .nil

end Nodes

end CorpusFacts.Properties
