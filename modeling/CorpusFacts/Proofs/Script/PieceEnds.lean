import CorpusFacts.Proofs.Script.LiteralEnds
import CorpusFacts.Proofs.Script.Pieces

/-!
# What follows a piece

A piece is cut off in one of a few ways, by its first character and what stands behind that. The
piece stays the same when a blank or line break takes the place of what follows; only a comment up
to the end of its line has to keep the line break.
-/

namespace CorpusFacts.Script

/-- A run of characters ends in the same place, if what follows does not go on with it. -/
theorem dropWhile_follows {p : Char → Bool} {body rest next : List Char}
    (hhead : ∀ c ∈ next.head?, p c = false) (h : (body ++ rest).dropWhile p = rest) :
    (body ++ next).dropWhile p = next := by
  induction body with
  | nil =>
    cases next with
    | nil => rfl
    | cons c next => simpa using hhead c rfl
  | cons c body ih =>
    rw [List.cons_append, List.dropWhile_cons] at h ⊢
    split at h
    · rename_i hc
      rw [if_pos hc]
      exact ih h
    · have := congrArg List.length h
      simp at this
      omega

/-- Whether a character starts no blank, separator, quoted literal or quoted identifier. -/
def isLoneChar (c : Char) : Bool :=
  !(isGap c || c == '\n' || c == ';' || c == '"' || c == '\'' || c == '`')

/-- The ways to cut off the piece that starts with a character: its kind, and what follows it. -/
inductive Cuts (dialect : Dialect) (before : Option TokenKind) (c : Char) (text : List Char) :
    PieceKind → List Char → Prop
  /-- A blank. -/
  | blank (hgap : isGap c = true) : Cuts dialect before c text .blank text
  /-- A line break. -/
  | newline (hc : c = '\n') : Cuts dialect before c text (.token .newline) text
  /-- A semicolon. -/
  | semicolon (hc : c = ';') : Cuts dialect before c text (.token .semicolon) text
  /-- Two slashes, up to the end of the line. -/
  | lineComment {rest : List Char} (hc : c = '/') (hhead : text.head? = some '/')
      (hrest : text.dropWhile (· != '\n') = rest) : Cuts dialect before c text .lineComment rest
  /-- A comment between delimiters. -/
  | blockComment {rest : List Char} (hc : c = '/') (hhead : text.head? = some '*')
      (hrest : afterBlockComment (dialect == .kotlin) (c :: text) 1 text.tail = .ok rest) :
      Cuts dialect before c text .blockComment rest
  /-- A Groovy literal between slashes, where an operand may start. -/
  | slashy {rest : List Char} (hc : c = '/') (hdialect : dialect = .groovy)
      (hbefore : startsOperand before = true)
      (hline : text.head? ≠ some '/') (hblock : text.head? ≠ some '*')
      (hrest : afterSlashy text = .ok rest) :
      Cuts dialect before c text (.token .string) rest
  /-- A literal between quotes. -/
  | string {rest : List Char} (hc : c = '"' ∨ c = '\'') (hrest : afterString c text = .ok rest) :
      Cuts dialect before c text (.token .string) rest
  /-- An identifier between backticks. -/
  | backtick {rest : List Char} (hc : c = '`') (hrest : afterBacktick (c :: text) text = .ok rest) :
      Cuts dialect before c text (.token .word) rest
  /-- A slash that divides. -/
  | slash (hc : c = '/') (hdivides : dialect = .groovy → startsOperand before = false)
      (hline : text.head? ≠ some '/') (hblock : text.head? ≠ some '*') :
      Cuts dialect before c text (.token (.punct c)) text
  /-- A word, as long as it goes on. -/
  | word {rest : List Char} (hc : isWordChar c = true) (hrest : text.dropWhile isWordChar = rest) :
      Cuts dialect before c text (.token .word) rest
  /-- An opening bracket. -/
  | opening (bracket : Bracket) (hc : Bracket.ofOpener? c = some bracket) :
      Cuts dialect before c text (.token (.opening bracket)) text
  /-- A closing bracket. -/
  | closing (bracket : Bracket) (hc : Bracket.ofCloser? c = some bracket) :
      Cuts dialect before c text (.token (.closing bracket)) text
  /-- Any other character. -/
  | punct (hlone : isLoneChar c = true) (hslash : c ≠ '/') (hword : isWordChar c = false)
      (hopener : Bracket.ofOpener? c = none) (hcloser : Bracket.ofCloser? c = none) :
      Cuts dialect before c text (.token (.punct c)) text

/-- The next piece is cut off in one of the ways. -/
theorem nextPiece_cuts {dialect : Dialect} {before : Option TokenKind} {c : Char}
    {text rest : List Char} {kind : PieceKind}
    (h : nextPiece dialect before c text = .ok (kind, rest)) :
    Cuts dialect before c text kind rest := by
  unfold nextPiece at h
  split at h
  · cases h
    exact .blank ‹_›
  split at h
  · cases h
    exact .newline (by simp_all)
  split at h
  · cases h
    exact .semicolon (by simp_all)
  split at h
  · cases h
    exact .lineComment (by simp_all) (by simp_all) rfl
  split at h
  · cases hrest : afterBlockComment (dialect == .kotlin) (c :: text) 1 text.tail with
    | error ended => rw [hrest] at h; cases h
    | ok found =>
      rw [hrest] at h
      cases h
      exact .blockComment (by simp_all) (by simp_all) hrest
  split at h
  · cases hrest : afterSlashy text with
    | error ended => rw [hrest] at h; cases h
    | ok found =>
      rw [hrest] at h
      cases h
      exact .slashy (by simp_all) (by simp_all) (by simp_all) (by simp_all) (by simp_all) hrest
  split at h
  · cases hrest : afterString c text with
    | error ended => rw [hrest] at h; cases h
    | ok found =>
      rw [hrest] at h
      cases h
      exact .string (by simp_all) hrest
  split at h
  · cases hrest : afterBacktick (c :: text) text with
    | error ended => rw [hrest] at h; cases h
    | ok found =>
      rw [hrest] at h
      cases h
      exact .backtick (by simp_all) hrest
  split at h
  · cases h
    exact .opening _ ‹_›
  · cases h
    exact .closing _ ‹_›
  · split at h
    · cases h
      exact .word ‹_› rfl
    · cases h
      by_cases hslash : c = '/'
      · exact .slash hslash (by simp_all) (by simp_all) (by simp_all)
      · exact .punct (by simp_all [isLoneChar]) hslash (by simp_all) ‹_› ‹_›

/-- In each of the ways the next piece is cut off. -/
theorem Cuts.nextPiece {dialect : Dialect} {before : Option TokenKind} {c : Char}
    {text rest : List Char} {kind : PieceKind} (h : Cuts dialect before c text kind rest) :
    nextPiece dialect before c text = .ok (kind, rest) := by
  unfold Script.nextPiece
  cases h with
  | blank hgap => rw [if_pos hgap]
  | newline hc => subst hc; rfl
  | semicolon hc => subst hc; rfl
  | lineComment hc hhead hrest => subst hc; simp [hhead, hrest, isGap]
  | blockComment hc hhead hrest => subst hc; simp [hhead, hrest, isGap]; rfl
  | slashy hc hdialect hbefore hline hblock hrest =>
    subst hc hdialect
    simp [hline, hblock, hbefore, hrest, isGap]
    rfl
  | string hc hrest => rcases hc with rfl | rfl <;> simp [hrest, isGap] <;> rfl
  | backtick hc hrest => subst hc; simp [hrest, isGap]; rfl
  | slash hc hdivides hline hblock =>
    subst hc
    have hplain : (dialect == .groovy && startsOperand before) = false := by
      cases dialect <;> simp_all
    have hword : isWordChar '/' = false := by decide
    simp [hline, hblock, hplain, isGap, Bracket.ofOpener?, Bracket.ofCloser?, hword]
  | word hc hrest =>
    have hne : ∀ other, isWordChar other = false → c ≠ other := by
      rintro other hother rfl
      rw [hc] at hother
      cases hother
    have hopener : Bracket.ofOpener? c = none := by
      unfold Bracket.ofOpener?
      split <;> first | rfl | exact absurd hc (by decide)
    have hcloser : Bracket.ofCloser? c = none := by
      unfold Bracket.ofCloser?
      split <;> first | rfl | exact absurd hc (by decide)
    simp [isGap, hopener, hcloser, hc, hrest, hne ' ' (by decide), hne '\t' (by decide),
      hne '\r' (by decide), hne '\x0c' (by decide), hne '\n' (by decide), hne ';' (by decide),
      hne '/' (by decide), hne '"' (by decide), hne '\'' (by decide), hne '`' (by decide)]
  | opening bracket hc =>
    unfold Bracket.ofOpener? at hc
    split at hc <;> cases hc <;> rfl
  | closing bracket hc =>
    unfold Bracket.ofCloser? at hc
    split at hc <;> cases hc <;> rfl
  | punct hlone hslash hword hopener hcloser =>
    simp only [isLoneChar, Bool.not_eq_true', Bool.or_eq_false_iff, beq_eq_false_iff_ne] at hlone
    simp [hlone, hslash, hword, hopener, hcloser]

/-- A piece is cut off in the same place, whatever text may follow; a comment up to the end of its
line needs the same line break behind it. -/
theorem nextPiece_follows {dialect : Dialect} {before : Option TokenKind} {c : Char}
    {body rest next : List Char} {kind : PieceKind}
    (hfollows : Follows rest next) (hline : kind = .lineComment → next.head? = rest.head?)
    (h : nextPiece dialect before c (body ++ rest) = .ok (kind, rest)) :
    nextPiece dialect before c (body ++ next) = .ok (kind, next) := by
  have hnil {body : List Char} (h : body ++ rest = rest) : body = [] := by simpa using h
  refine Cuts.nextPiece ?_
  have hcuts := nextPiece_cuts h
  generalize htext : body ++ rest = text at hcuts
  cases hcuts with
  | blank hgap =>
    obtain rfl := hnil htext
    exact .blank hgap
  | newline hc =>
    obtain rfl := hnil htext
    exact .newline hc
  | semicolon hc =>
    obtain rfl := hnil htext
    exact .semicolon hc
  | lineComment hc hhead hrest =>
    have hend : ∀ c ∈ next.head?, (c != '\n') = false := by
      intro c hc
      rw [hline rfl, ← hrest] at hc
      have := List.head?_dropWhile_not (· != '\n') text
      rw [hc] at this
      simpa using this
    have hdrop : (body ++ next).dropWhile (· != '\n') = next :=
      dropWhile_follows hend (by rw [htext, hrest])
    cases body with
    | nil =>
      rw [List.nil_append] at htext
      subst htext
      obtain ⟨later, rfl⟩ := List.head?_eq_some_iff.mp hhead
      have := List.dropWhile_suffix (· != '\n') (l := later)
      simp at hrest
      rw [hrest] at this
      have := this.length_le
      rw [List.length_cons] at this
      omega
    | cons d later =>
      subst htext
      exact .lineComment hc hhead hdrop
  | blockComment hc hhead hrest =>
    have hlength := afterBlockComment_length hrest
    obtain ⟨later, rfl⟩ := List.head?_eq_some_iff.mp hhead
    rw [List.tail_cons] at hrest hlength
    obtain ⟨later, rfl, rfl⟩ := append_eq_cons htext (by omega)
    exact .blockComment hc rfl (afterBlockComment_follows hrest)
  | slashy hc hdialect hbefore hlineHead hblockHead hrest =>
    subst htext
    have hreach := closeLiterals_reach hrest
    cases body with
    | nil =>
      simp only [OpenLiteral.reach, List.map_cons, List.sum_cons, List.nil_append] at hreach
      omega
    | cons d later =>
      exact .slashy hc hdialect hbefore hlineHead hblockHead
        (closeLiterals_follows (.cons (.slashy _ _) .nil) hfollows.addsNoQuote hrest)
  | string hc hrest =>
    subst htext
    exact .string hc (afterString_follows hc hfollows.addsNoQuote hrest)
  | backtick hc hrest =>
    subst htext
    exact .backtick hc (afterBacktick_follows hrest)
  | slash hc hdivides hlineHead hblockHead =>
    obtain rfl := hnil htext
    exact .slash hc hdivides (hfollows.head?_ne (by decide) hlineHead)
      (hfollows.head?_ne (by decide) hblockHead)
  | word hc hrest =>
    refine .word hc (dropWhile_follows ?_ (by rw [htext, hrest]))
    intro d hd
    rcases hfollows with hsame | hnone | hblank | hbreak
    · have := List.head?_dropWhile_not isWordChar text
      rw [hrest, ← hsame, hd] at this
      simpa using this
    · simp [hnone] at hd
    · obtain rfl : ' ' = d := by simpa [hblank] using hd
      decide
    · obtain rfl : '\n' = d := by simpa [hbreak] using hd
      decide
  | opening bracket hc =>
    obtain rfl := hnil htext
    exact .opening bracket hc
  | closing bracket hc =>
    obtain rfl := hnil htext
    exact .closing bracket hc
  | punct hlone hslash hword hopener hcloser =>
    obtain rfl := hnil htext
    exact .punct hlone hslash hword hopener hcloser
end CorpusFacts.Script
