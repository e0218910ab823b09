import CorpusFacts.Proofs.Text.Bytes
import CorpusFacts.Proofs.Text.Splitting
import Mathlib.Data.List.Induction
import Mathlib.Data.List.TakeDrop

/-!
# Line feeds with carriage returns before them

A text can have its lines end in carriage returns and line feeds. What goes by characters of a kind
reads such a text as it reads the other one, if line feeds and carriage returns are of one kind: the
text is cut at the same places, and its parts have the same line ends in place of the others.
-/

namespace CorpusFacts

namespace Text

/-- A character with a carriage return before it, if it is a line feed. -/
def withReturn (c : Char) : List Char :=
  if c = '\n' then ['\r', '\n'] else [c]

/-- The text with a carriage return before each line feed. -/
def withReturns (text : List Char) : List Char :=
  text.flatMap withReturn

@[simp] theorem withReturns_nil : withReturns [] = [] := rfl

@[simp] theorem withReturns_break (text : List Char) :
    withReturns ('\n' :: text) = '\r' :: '\n' :: withReturns text := rfl

/-- Nothing comes before a character that is no line feed. -/
theorem withReturns_cons {c : Char} (hc : c ≠ '\n') (text : List Char) :
    withReturns (c :: text) = c :: withReturns text := by
  rw [withReturns, List.flatMap_cons, withReturn, if_neg hc]
  rfl

@[simp] theorem withReturns_append (first second : List Char) :
    withReturns (first ++ second) = withReturns first ++ withReturns second :=
  List.flatMap_append

/-- A text on one line stays. -/
theorem withReturns_of_notMem {text : List Char} (h : '\n' ∉ text) : withReturns text = text := by
  induction text with
  | nil => rfl
  | cons c text ih =>
    rw [List.mem_cons, not_or] at h
    rw [withReturns_cons (Ne.symm h.1), ih h.2]

@[simp] theorem withReturns_eq_nil_iff {text : List Char} : withReturns text = [] ↔ text = [] := by
  cases text with
  | nil => simp
  | cons c text =>
    by_cases hc : c = '\n'
    · subst hc
      simp
    · simp [withReturns_cons hc]

/-- A text is its last line, or a line with a line feed and what follows. -/
@[elab_as_elim]
theorem lines_induction {motive : List Char → Prop}
    (last : ∀ line : List Char, '\n' ∉ line → motive line)
    (more : ∀ line rest : List Char, '\n' ∉ line → motive rest → motive (line ++ '\n' :: rest))
    (text : List Char) : motive text := by
  induction hlength : text.length using Nat.strongRecOn generalizing text with
  | ind length ih =>
    by_cases hbreak : '\n' ∈ text
    · obtain ⟨line, rest, rfl, hline⟩ := List.eq_append_cons_of_mem hbreak
      refine more line rest hline (ih rest.length ?_ rest rfl)
      rw [← hlength, List.length_append, List.length_cons]
      omega
    · exact last text hbreak

/-- There are as many line feeds as before. -/
@[simp] theorem mem_withReturns_break {text : List Char} :
    '\n' ∈ withReturns text ↔ '\n' ∈ text := by
  induction text with
  | nil => rfl
  | cons c text ih =>
    by_cases hc : c = '\n'
    · subst hc
      simp
    · simp [withReturns_cons hc, ih]

/-- A text starts with a character that belongs to no line end, if it did before. -/
theorem head?_withReturns {c : Char} (hc : c ≠ '\n') (hreturn : c ≠ '\r') (text : List Char) :
    (withReturns text).head? = some c ↔ text.head? = some c := by
  cases text with
  | nil => rfl
  | cons d text =>
    by_cases hd : d = '\n'
    · subst hd
      simp [hc.symm, hreturn.symm]
    · simp [withReturns_cons hd]

/-- What starts a text is of one kind with what started it before. -/
theorem any_head?_withReturns {p : Char → Bool} (hp : p '\r' = p '\n') (text : List Char) :
    (withReturns text).head?.any p = text.head?.any p := by
  cases text with
  | nil => rfl
  | cons d text =>
    by_cases hd : d = '\n'
    · subst hd
      simp [hp]
    · simp [withReturns_cons hd]

/-- Behind a first character that is no line feed, a text goes on as it did. -/
theorem tail_withReturns {text : List Char} (h : text.head? ≠ some '\n') :
    (withReturns text).tail = withReturns text.tail := by
  cases text with
  | nil => rfl
  | cons c text => rw [withReturns_cons (by simpa using h), List.tail_cons, List.tail_cons]

/-- A text with other line ends is another text. -/
theorem withReturns_injective : Function.Injective withReturns := by
  -- No text with carriage returns before its line feeds starts with a line feed.
  have hstart (text other : List Char) : '\n' :: other ≠ withReturns text := by
    cases text with
    | nil => simp
    | cons c text =>
      by_cases hc : c = '\n'
      · subst hc
        simp
      · simp [withReturns_cons hc, Ne.symm hc]
  intro first second h
  induction first generalizing second with
  | nil => exact (withReturns_eq_nil_iff.mp h.symm).symm
  | cons c first ih =>
    cases second with
    | nil => exact absurd h (by simp)
    | cons d second =>
      by_cases hc : c = '\n' <;> by_cases hd : d = '\n'
      · subst hc hd
        rw [ih (by simpa using h)]
      · subst hc
        rw [withReturns_break, withReturns_cons hd, List.cons.injEq] at h
        exact absurd h.2 (hstart second _)
      · subst hd
        rw [withReturns_break, withReturns_cons hc, List.cons.injEq] at h
        exact absurd h.2.symm (hstart first _)
      · rw [withReturns_cons hc, withReturns_cons hd, List.cons.injEq] at h
        rw [h.1, ih h.2]

/-- A text on one line is what another one becomes only if it is that one. -/
theorem withReturns_eq_iff {text line : List Char} (hline : '\n' ∉ line) :
    withReturns text = line ↔ text = line := by
  have hstays := withReturns_of_notMem hline
  exact ⟨fun h => withReturns_injective (h.trans hstays.symm), fun h => h ▸ hstays⟩

section Kinds

variable {p : Char → Bool}

/-- Characters of a kind are taken off the start alike. -/
theorem dropWhile_withReturns (hp : p '\r' = p '\n') (text : List Char) :
    (withReturns text).dropWhile p = withReturns (text.dropWhile p) := by
  induction text with
  | nil => rfl
  | cons c text ih =>
    by_cases hc : c = '\n'
    · subst hc
      cases hbreak : p '\n' <;> simp [hp, hbreak, ih]
    · rw [withReturns_cons hc, List.dropWhile_cons, List.dropWhile_cons, ih]
      split
      · rfl
      · rw [withReturns_cons hc]

/-- As many characters of a kind stand at the start. -/
theorem takeWhile_withReturns (hp : p '\r' = p '\n') (text : List Char) :
    (withReturns text).takeWhile p = withReturns (text.takeWhile p) := by
  induction text with
  | nil => rfl
  | cons c text ih =>
    by_cases hc : c = '\n'
    · subst hc
      cases hbreak : p '\n' <;> simp [hp, hbreak, ih]
    · rw [withReturns_cons hc, List.takeWhile_cons, List.takeWhile_cons, ih]
      split
      · rw [withReturns_cons hc]
      · rfl

/-- A text is cut alike where characters of a kind end. -/
theorem span_withReturns (hp : p '\r' = p '\n') (text : List Char) :
    (withReturns text).span p = (withReturns (text.span p).1, withReturns (text.span p).2) := by
  rw [List.span_eq_takeWhile_dropWhile, List.span_eq_takeWhile_dropWhile,
    takeWhile_withReturns hp, dropWhile_withReturns hp]

/-- One more character at the end is dropped with those before it, or all are kept. -/
theorem dropEndWhile_concat (p : Char → Bool) (text : List Char) (c : Char) :
    dropEndWhile p (text ++ [c]) = if p c then dropEndWhile p text else text ++ [c] := by
  rw [dropEndWhile, dropEndWhile, List.reverse_append, List.reverse_singleton,
    List.singleton_append, List.dropWhile_cons]
  split <;> simp

/-- Characters of a kind are taken off the end alike. -/
theorem dropEndWhile_withReturns (hp : p '\r' = p '\n') (text : List Char) :
    dropEndWhile p (withReturns text) = withReturns (dropEndWhile p text) := by
  induction text using List.reverseRecOn with
  | nil => rfl
  | append_singleton text c ih =>
    rw [withReturns_append, dropEndWhile_concat]
    by_cases hc : c = '\n'
    · subst hc
      have hmark : withReturns ['\n'] = ['\r'] ++ ['\n'] := rfl
      rw [hmark, ← List.append_assoc, dropEndWhile_concat, dropEndWhile_concat, hp, ih]
      split
      · rfl
      · simp
    · have hsame : withReturns [c] = [c] := withReturns_cons hc []
      rw [hsame, dropEndWhile_concat, ih]
      split
      · rfl
      · rw [withReturns_append, hsame]

/-- Without the characters of a kind that line feeds are of, line ends do not matter. -/
theorem filter_withReturns (hreturn : p '\r' = false) (hbreak : p '\n' = false)
    (text : List Char) : (withReturns text).filter p = text.filter p := by
  induction text with
  | nil => rfl
  | cons c text ih =>
    by_cases hc : c = '\n'
    · subst hc
      simp [hreturn, hbreak, ih]
    · rw [withReturns_cons hc, List.filter_cons, List.filter_cons, ih]

/-- A text that is not split at its line ends is split alike. -/
theorem splitWhere_withReturns (hreturn : p '\r' = false) (hbreak : p '\n' = false)
    (text : List Char) : splitWhere p (withReturns text) = (splitWhere p text).map withReturns := by
  induction text with
  | nil => rfl
  | cons c text ih =>
    obtain ⟨part, parts, hparts⟩ := List.exists_cons_of_ne_nil (splitWhere_ne_nil p text)
    rw [hparts, List.map_cons] at ih
    by_cases hc : c = '\n'
    · subst hc
      simp [splitWhere, hreturn, hbreak, ih, hparts]
    · rw [withReturns_cons hc, splitWhere, splitWhere, ih, hparts]
      split
      · simp
      · simp [withReturns_cons hc]

end Kinds

/-- Line ends at the start do not matter where blanks there do not. -/
theorem trimStart_withReturns (text : List Char) :
    trimStart (withReturns text) = withReturns (trimStart text) :=
  dropWhile_withReturns (by decide) text

/-- Line ends around a text do not matter where blanks there do not. -/
theorem trim_withReturns (text : List Char) :
    trim (withReturns text) = withReturns (trim text) := by
  rw [trim, trim, trimStart_withReturns, dropEndWhile_withReturns (by decide)]

/-- Line ends do not matter where no blank does. -/
theorem compact_withReturns (text : List Char) : compact (withReturns text) = compact text :=
  filter_withReturns (by decide) (by decide) text

/-- A text has the same words whatever its line ends are. -/
theorem words_withReturns (text : List Char) : words (withReturns text) = words text := by
  induction text using lines_induction with
  | last line hline => rw [withReturns_of_notMem hline]
  | more line rest hline ih =>
    have hreturn : isBlank '\r' = true := by decide
    have hbreak : isBlank '\n' = true := by decide
    have hbetween : words ('\n' :: withReturns rest) = words (withReturns rest) :=
      words_append hbreak [] (withReturns rest)
    rw [withReturns_append, withReturns_of_notMem hline, withReturns_break,
      words_append hreturn, hbetween, ih, words_append hbreak]

/-- What follows a start on one line is found alike. -/
theorem after?_withReturns {start : List Char} (hbreak : '\n' ∉ start) (hreturn : '\r' ∉ start)
    (text : List Char) : after? start (withReturns text) = (after? start text).map withReturns := by
  induction start generalizing text with
  | nil => rfl
  | cons c start ih =>
    rw [List.mem_cons, not_or] at hbreak hreturn
    cases text with
    | nil => rfl
    | cons d text =>
      by_cases hd : d = '\n'
      · subst hd
        simp [after?, Ne.symm hbreak.1, Ne.symm hreturn.1]
      · rw [withReturns_cons hd, after?, after?]
        split
        · exact ih hbreak.2 hreturn.2 text
        · rfl

/-- A text starts with another one on one line, if it did before. -/
theorem isPrefixOf_withReturns {start : List Char} (hbreak : '\n' ∉ start) (hreturn : '\r' ∉ start)
    (text : List Char) : start.isPrefixOf (withReturns text) = start.isPrefixOf text := by
  induction start generalizing text with
  | nil => simp
  | cons c start ih =>
    rw [List.mem_cons, not_or] at hbreak hreturn
    cases text with
    | nil => rfl
    | cons d text =>
      by_cases hd : d = '\n'
      · subst hd
        rw [withReturns_break, List.isPrefixOf, List.isPrefixOf, beq_false_of_ne (Ne.symm hbreak.1),
          beq_false_of_ne (Ne.symm hreturn.1), Bool.false_and, Bool.false_and]
      · rw [withReturns_cons hd, List.isPrefixOf, List.isPrefixOf, ih hbreak.2 hreturn.2]

/-- Behind a start on one line a text goes on as it did. -/
theorem drop_withReturns {start text : List Char} (hbreak : '\n' ∉ start)
    (hstart : start.isPrefixOf text = true) :
    (withReturns text).drop start.length = withReturns (text.drop start.length) := by
  obtain ⟨rest, rfl⟩ := List.isPrefixOf_iff_prefix.mp hstart
  rw [withReturns_append, withReturns_of_notMem hbreak, List.drop_left, List.drop_left]

/-- The parts of a text have a separator between them as before. -/
theorem intercalate_withReturns (separator : List Char) (parts : List (List Char)) :
    (withReturns separator).intercalate (parts.map withReturns) =
      withReturns (separator.intercalate parts) := by
  induction parts with
  | nil => rfl
  | cons part parts ih =>
    cases parts with
    | nil => simp [List.intercalate]
    | cons next parts =>
      rw [List.map_cons, List.map_cons, List.intercalate_cons_cons, List.intercalate_cons_cons,
        ← List.map_cons, ih]
      simp

/-- A byte order mark comes off alike. -/
theorem dropByteOrderMark_withReturns (text : List Char) :
    dropByteOrderMark (withReturns text) = withReturns (dropByteOrderMark text) := by
  cases text with
  | nil => rfl
  | cons c text =>
    by_cases hc : c = '\n'
    · subst hc
      rfl
    · rw [withReturns_cons hc]
      by_cases hmark : c = '\ufeff'
      · subst hmark
        rfl
      · simp [dropByteOrderMark, hmark, withReturns_cons hc]

/-- Two bytes are at the same place of a text, the second one with a carriage return before each
line feed. -/
def SameByte (text : List Char) (byte other : Nat) : Prop :=
  ∃ front back, text = front ++ back ∧ byte = byteLength front ∧
    other = byteLength (withReturns front)

namespace SameByte

variable {text : List Char} {start otherStart stop otherStop : Nat}

/-- Places next to a part of a text are next to that part with the other line ends. -/
theorem between (hstart : SameByte text start otherStart) (hstop : SameByte text stop otherStop) :
    (∃ front part back, text = front ++ part ++ back ∧
      start = byteLength front ∧ stop = byteLength front + byteLength part ∧
      otherStart = byteLength (withReturns front) ∧
      otherStop = byteLength (withReturns front) + byteLength (withReturns part)) ∨
    (stop < start ∧ otherStop < otherStart) := by
  obtain ⟨front, rest, htext, rfl, rfl⟩ := hstart
  obtain ⟨longer, back, hlonger, rfl, rfl⟩ := hstop
  rcases List.prefix_or_prefix_of_prefix ⟨rest, htext.symm⟩ ⟨back, hlonger.symm⟩ with
    ⟨part, rfl⟩ | ⟨part, rfl⟩
  · exact .inl ⟨front, part, back, hlonger, rfl, byteLength_append .., rfl, by
      rw [withReturns_append, byteLength_append]⟩
  · rcases eq_or_ne part [] with rfl | hpart
    · exact .inl ⟨longer, [], back, by simpa using hlonger, by simp⟩
    · have hpos := byteLength_pos hpart
      have hother := byteLength_pos (mt withReturns_eq_nil_iff.mp hpart)
      refine .inr ⟨?_, ?_⟩
      · rw [byteLength_append]
        omega
      · rw [withReturns_append, byteLength_append]
        omega

/-- What lies between two places is the same but for its line ends. -/
theorem sliceBytes_eq (hstart : SameByte text start otherStart)
    (hstop : SameByte text stop otherStop) :
    sliceBytes (withReturns text) otherStart otherStop =
      withReturns (sliceBytes text start stop) := by
  rcases hstart.between hstop with ⟨front, part, back, rfl, rfl, rfl, rfl, rfl⟩ | ⟨hlt, hother⟩
  · rw [withReturns_append, withReturns_append, sliceBytes_middle, sliceBytes_middle]
  · rw [sliceBytes, sliceBytes, if_pos hlt, if_pos hother, withReturns_nil]

/-- The later one of two places is the later one with other line ends. -/
theorem later (hstart : SameByte text start otherStart) (hstop : SameByte text stop otherStop) :
    SameByte text (max start stop) (max otherStart otherStop) := by
  rcases hstart.between hstop with ⟨front, part, back, _, rfl, rfl, rfl, rfl⟩ | ⟨hlt, hother⟩
  · rwa [Nat.max_eq_right (Nat.le_add_right _ _), Nat.max_eq_right (Nat.le_add_right _ _)]
  · rwa [Nat.max_eq_left (Nat.le_of_lt hlt), Nat.max_eq_left (Nat.le_of_lt hother)]

end SameByte

end Text

/-- Two nodes of one kind start and end at the same places of a text, the second one with a carriage
return before each line feed. -/
structure Node.SameRange (source : List Char) (node twin : Node) : Prop where
  /-- They are of one kind. -/
  kind : twin.kind = node.kind
  /-- They start at the same place. -/
  start : Text.SameByte source node.start twin.start
  /-- They end at the same place. -/
  stop : Text.SameByte source node.stop twin.stop

end CorpusFacts
