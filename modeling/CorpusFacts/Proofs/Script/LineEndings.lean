import CorpusFacts.Proofs.Script.Comments
import CorpusFacts.Proofs.Script.Correspondence
import CorpusFacts.Proofs.Script.EscapedBreaks

/-!
# Scripts with other line ends

With a carriage return before each line feed a script is cut into the same pieces and into one blank
more for each line break. Only a comment up to the end of its line takes the carriage return in, and
so does a first line that names an interpreter. The tokens lie at the same places of the script as
before, and so do the nodes of its tree.
-/

namespace CorpusFacts.Script

variable {dialect : Dialect} {before : Option TokenKind} {kind : PieceKind} {c : Char}
  {source text body rest : List Char} {pieces others : List Piece}

/-- A comment between delimiters ends where it did. -/
theorem afterBlockComment_withReturns_iff {nests : Bool} {start other : List Char} {depth : Nat} :
    afterBlockComment nests start depth (Text.withReturns text) = .ok rest ↔
      ∃ found, afterBlockComment nests other depth text = .ok found ∧
        rest = Text.withReturns found := by
  induction hlength : text.length using Nat.strongRecOn generalizing text depth with
  | ind length ih =>
    subst hlength
    match text with
    | [] => simp [afterBlockComment]
    | [c] =>
      by_cases hc : c = '\n'
      · simp [hc, afterBlockComment]
      · simp [Text.withReturns_cons hc, afterBlockComment]
    | c :: d :: text =>
      by_cases hc : c = '\n'
      · obtain ⟨e, more, hmore⟩ := List.exists_cons_of_ne_nil
          (mt Text.withReturns_eq_nil_iff.mp (List.cons_ne_nil d text))
        have hrest := @ih (d :: text).length (by simp) (d :: text) depth rfl
        rw [hmore] at hrest
        simpa [hc, hmore, afterBlockComment] using hrest
      · rw [Text.withReturns_cons hc]
        by_cases hd : d = '\n'
        · have hrest := @ih ('\n' :: text).length (by simp) ('\n' :: text) depth rfl
          rw [Text.withReturns_break] at hrest
          simpa [hd, afterBlockComment] using hrest
        · have hbehind (depth : Nat) := @ih text.length (by simp only [List.length_cons]; omega) text depth rfl
          have hrest := @ih (d :: text).length (by simp) (d :: text) depth rfl
          rw [Text.withReturns_cons hd] at hrest ⊢
          rw [afterBlockComment, afterBlockComment]
          split
          · split
            · simp [eq_comm]
            · exact hbehind _
          · split
            · exact hbehind _
            · exact hrest

/-- An identifier between backticks ends where it did. -/
theorem afterBacktick_withReturns_iff {start other : List Char} :
    afterBacktick start (Text.withReturns text) = .ok rest ↔
      ∃ found, afterBacktick other text = .ok found ∧ rest = Text.withReturns found := by
  induction text with
  | nil => simp [afterBacktick]
  | cons c text ih =>
    by_cases hc : c = '\n'
    · simp [hc, afterBacktick]
    · rw [Text.withReturns_cons hc, afterBacktick, afterBacktick]
      split
      · simp
      · split
        · simp [eq_comm]
        · exact ih

/-- An identifier between backticks is on one line. -/
theorem notMem_of_afterBacktick {start : List Char}
    (h : afterBacktick start (body ++ rest) = .ok rest) : '\n' ∉ body := by
  induction body with
  | nil => simp
  | cons c body ih =>
    rw [List.cons_append, afterBacktick] at h
    split at h
    · cases h
    · rename_i hline
      split at h
      · have hlength := congrArg List.length (Except.ok.inj h)
        simp at hlength
        simp [hlength, Ne.symm (by simpa using hline : c ≠ '\n')]
      · simpa [Ne.symm (by simpa using hline : c ≠ '\n')] using ih h

/-- A word is on one line. -/
theorem notMem_of_word
    (h : nextPiece dialect before c (body ++ rest) = .ok (.token .word, rest)) :
    '\n' ∉ c :: body := by
  have hcuts := nextPiece_cuts h
  generalize htext : body ++ rest = text at hcuts
  cases hcuts with
  | backtick hc hrest =>
    subst htext hc
    simpa using notMem_of_afterBacktick hrest
  | word hc hrest =>
    subst htext
    rw [List.mem_cons, not_or]
    refine ⟨?_, notMem_of_dropWhile (by decide) hrest⟩
    rintro rfl
    exact absurd hc (by decide)

/-- What is cut off before a line feed is cut off as before. -/
theorem Cuts.withReturns (hline : kind ≠ .lineComment)
    (hplain : kind = .token .string → literalEscapesBreak (c :: body) = false)
    (h : Cuts dialect before c (body ++ rest) kind rest) :
    Cuts dialect before c (Text.withReturns (body ++ rest)) kind (Text.withReturns rest) := by
  have hstays {d : Char} (hd : d ≠ '\n') (hreturn : d ≠ '\r') (text : List Char) :=
    Text.head?_withReturns hd hreturn text
  have hliteral (hc : c = '"' ∨ c = '\'' ∨ c = '/') (hstring : kind = .token .string)
      (hrest : afterLiteral c (body ++ rest) = .ok rest) :=
    (afterLiteral_withReturns_iff hc hrest).mpr ⟨hplain hstring, rfl⟩
  generalize htext : body ++ rest = text at *
  cases h with
  | blank hgap => exact .blank hgap
  | newline hc => exact .newline hc
  | semicolon hc => exact .semicolon hc
  | lineComment => exact (hline rfl).elim
  | blockComment hc hhead hrest =>
    have htail : (Text.withReturns text).tail = Text.withReturns text.tail :=
      Text.tail_withReturns (by simp [hhead])
    refine .blockComment hc ((hstays (by decide) (by decide) text).mpr hhead) ?_
    rw [htail]
    exact afterBlockComment_withReturns_iff.mpr ⟨_, hrest, rfl⟩
  | slashy hc hdialect hbefore hslash hstar hrest =>
    subst hc
    exact .slashy rfl hdialect hbefore (by rwa [ne_eq, hstays (by decide) (by decide)])
      (by rwa [ne_eq, hstays (by decide) (by decide)]) (hliteral (by simp) rfl hrest)
  | string hc hrest =>
    refine .string hc ?_
    have hquote : c ≠ '/' := by rcases hc with rfl | rfl <;> decide
    simpa [afterLiteral, hquote] using
      hliteral (hc.imp_right .inl) rfl (by simpa [afterLiteral, hquote] using hrest)
  | backtick hc hrest => exact .backtick hc (afterBacktick_withReturns_iff.mpr ⟨_, hrest, rfl⟩)
  | slash hc hdivides hslash hstar =>
    exact .slash hc hdivides (by rwa [ne_eq, hstays (by decide) (by decide)])
      (by rwa [ne_eq, hstays (by decide) (by decide)])
  | word hc hrest =>
    refine .word hc ?_
    rw [Text.dropWhile_withReturns (by decide), hrest]
  | opening bracket hc => exact .opening bracket hc
  | closing bracket hc => exact .closing bracket hc
  | punct hlone hslash hword hopener hcloser => exact .punct hlone hslash hword hopener hcloser

/-- A comment up to the end of its line takes in the carriage return there. -/
theorem Cuts.lineComment_withReturns {mark later : List Char} (hmark : '\n' ∉ mark)
    (hends : LineEnds later) (h : Cuts dialect before c (body ++ rest) .lineComment rest) :
    Cuts dialect before c (Text.withReturns body ++ mark ++ later) .lineComment later := by
  generalize htext : body ++ rest = text at h
  cases h with
  | lineComment hc hhead hrest =>
    subst htext
    have hbody : '\n' ∉ body := notMem_of_dropWhile (by decide) hrest
    rw [Text.withReturns_of_notMem hbody]
    have hline : '\n' ∉ body ++ mark := by simp [hbody, hmark]
    refine .lineComment hc ?_ (takeWhile_line hline hends).2
    cases body with
    | cons d body => exact hhead
    | nil =>
      have hstop := List.head?_dropWhile_not (· != '\n') rest
      rw [List.nil_append] at hrest hhead
      rw [hrest, hhead] at hstop
      cases hstop

/-- What is cut off with carriage returns before all line feeds is cut off without. -/
theorem Cuts.of_withReturns {other : List Char} (hline : kind ≠ .lineComment)
    (h : Cuts dialect before c (Text.withReturns text) kind other) :
    ∃ rest, other = Text.withReturns rest ∧ Cuts dialect before c text kind rest := by
  have hstays {d : Char} (hd : d ≠ '\n') (hreturn : d ≠ '\r') :=
    Text.head?_withReturns hd hreturn text
  generalize hreturns : Text.withReturns text = returned at *
  cases h with
  | blank hgap => exact ⟨text, hreturns.symm, .blank hgap⟩
  | newline hc => exact ⟨text, hreturns.symm, .newline hc⟩
  | semicolon hc => exact ⟨text, hreturns.symm, .semicolon hc⟩
  | lineComment => exact (hline rfl).elim
  | blockComment hc hhead hrest =>
    rw [hstays (by decide) (by decide)] at hhead
    subst hreturns
    rw [Text.tail_withReturns (by simp [hhead])] at hrest
    obtain ⟨rest, hfound, rfl⟩ := afterBlockComment_withReturns_iff.mp hrest
    exact ⟨rest, rfl, .blockComment hc hhead hfound⟩
  | slashy hc hdialect hbefore hslash hstar hrest =>
    rw [ne_eq, hstays (by decide) (by decide)] at hslash hstar
    subst hc hreturns
    have hfirst : '/' = '"' ∨ '/' = '\'' ∨ '/' = '/' := by simp
    obtain ⟨rest, hfound, rfl⟩ := afterLiteral_of_withReturns hfirst hrest
    exact ⟨rest, rfl, .slashy rfl hdialect hbefore hslash hstar hfound⟩
  | string hc hrest =>
    subst hreturns
    have hquote : c ≠ '/' := by rcases hc with rfl | rfl <;> decide
    have hfirst : c = '"' ∨ c = '\'' ∨ c = '/' := by tauto
    obtain ⟨rest, hfound, rfl⟩ := afterLiteral_of_withReturns hfirst
      (by simpa [afterLiteral, hquote] using hrest)
    exact ⟨rest, rfl, .string hc (by simpa [afterLiteral, hquote] using hfound)⟩
  | backtick hc hrest =>
    subst hreturns
    obtain ⟨rest, hfound, rfl⟩ := afterBacktick_withReturns_iff.mp hrest
    exact ⟨rest, rfl, .backtick hc hfound⟩
  | slash hc hdivides hslash hstar =>
    rw [ne_eq, hstays (by decide) (by decide)] at hslash hstar
    exact ⟨text, hreturns.symm, .slash hc hdivides hslash hstar⟩
  | word hc hrest =>
    subst hreturns
    rw [Text.dropWhile_withReturns (by decide)] at hrest
    exact ⟨_, hrest.symm, .word hc rfl⟩
  | opening bracket hc => exact ⟨text, hreturns.symm, .opening bracket hc⟩
  | closing bracket hc => exact ⟨text, hreturns.symm, .closing bracket hc⟩
  | punct hlone hslash hword hopener hcloser =>
    exact ⟨text, hreturns.symm, .punct hlone hslash hword hopener hcloser⟩

/-- A literal is cut off where its delimiter ends it. -/
theorem Cuts.afterLiteral (h : Cuts dialect before c text (.token .string) rest) :
    (c = '"' ∨ c = '\'' ∨ c = '/') ∧ afterLiteral c text = .ok rest := by
  cases h with
  | slashy hc hdialect hbefore hslash hstar hrest =>
    subst hc
    exact ⟨by simp, hrest⟩
  | string hc hrest =>
    have hquote : c ≠ '/' := by rcases hc with rfl | rfl <;> decide
    exact ⟨hc.imp_right .inl, by simpa [Script.afterLiteral, hquote] using hrest⟩

/-- What is cut off with and without carriage returns before line feeds escapes no line break. -/
theorem Cuts.not_escapes {other : List Char} (hstring : kind = .token .string)
    (hother : Cuts dialect before c (Text.withReturns (body ++ rest)) kind other)
    (h : Cuts dialect before c (body ++ rest) kind rest) :
    literalEscapesBreak (c :: body) = false := by
  subst hstring
  obtain ⟨hc, hrest⟩ := h.afterLiteral
  exact ((afterLiteral_withReturns_iff hc hrest).mp hother.afterLiteral.2).1

/-- Some pieces and what becomes of them with carriage returns before line feeds. -/
inductive Returned : (pieces others : List Piece) → Prop
  /-- Nothing is left to read. -/
  | nil : Returned [] []
  /-- A blank comes before a line break. -/
  | newline {pieces others : List Piece} (hrest : Returned pieces others) :
      Returned (⟨.token .newline, ['\n']⟩ :: pieces)
        (⟨.blank, ['\r']⟩ :: ⟨.token .newline, ['\n']⟩ :: others)
  /-- A comment up to the end of its line, or a first line, takes that blank in. -/
  | line {kind : PieceKind} (hkind : ∀ token, kind ≠ .token token) {line : List Char}
      {pieces others : List Piece} (hrest : Returned pieces others) :
      Returned (⟨kind, line⟩ :: ⟨.token .newline, ['\n']⟩ :: pieces)
        (⟨kind, Text.withReturns line ++ ['\r']⟩ :: ⟨.token .newline, ['\n']⟩ :: others)
  /-- Any other piece stays one. -/
  | same {kind : PieceKind} (hkind : kind ≠ .token .newline) {text : List Char}
      (hword : kind = .token .word → '\n' ∉ text) {pieces others : List Piece}
      (hrest : Returned pieces others) :
      Returned (⟨kind, text⟩ :: pieces) (⟨kind, Text.withReturns text⟩ :: others)

/-- What becomes of the pieces of a text makes up that text with carriage returns before its line
feeds. -/
theorem Returned.textOf_eq (h : Returned pieces others) :
    textOf others = Text.withReturns (textOf pieces) := by
  induction h with
  | nil => rfl
  | newline _ ih => simp [ih]
  | line _ _ ih => simp [ih]
  | same _ _ _ ih => simp [ih]

/-- A piece up to the end of its line takes in the carriage return there. -/
theorem Returned.behind_line {line : List Char} (hkind : ∀ token, kind ≠ .token token)
    (hends : LineEnds (textOf pieces)) (hreads : (rule dialect).Reads before pieces)
    (h : Returned pieces others) (hothers : (rule dialect).Reads before others) :
    ∃ mark later, '\n' ∉ mark ∧ LineEnds (textOf later) ∧ (rule dialect).Reads before later ∧
      Returned (⟨kind, line⟩ :: pieces) (⟨kind, Text.withReturns line ++ mark⟩ :: later) := by
  cases hreads with
  | nil =>
    cases h
    refine ⟨[], [], by simp, by simp [LineEnds], .nil, ?_⟩
    rw [List.append_nil]
    exact .same (hkind _) (fun hword => (hkind _ hword).elim) .nil
  | @cons _ other c body pieces hnext hlater =>
    obtain rfl : c = '\n' := hends c rfl
    obtain rfl := kind_of_break (show nextPiece dialect before '\n' _ = _ from hnext)
    cases h with
    | newline hrest =>
      cases hothers with
      | cons _ hothers =>
        exact ⟨['\r'], _, by decide, by simp [LineEnds], hothers, .line hkind hrest⟩
    | line hnewline => exact (hnewline _ rfl).elim
    | same hnewline => exact (hnewline rfl).elim

/-- No literal among some pieces escapes a line break. -/
def EscapeNoBreak (pieces : List Piece) : Prop :=
  ∀ piece ∈ pieces, piece.kind = .token .string → literalEscapesBreak piece.text = false

/-- With carriage returns before line feeds a script is read as before, if no literal escapes a line
break. -/
theorem reads_withReturns (h : (rule dialect).Reads before pieces)
    (hplain : EscapeNoBreak pieces) :
    ∃ others, Returned pieces others ∧ (rule dialect).Reads before others := by
  induction h with
  | nil => exact ⟨[], .nil, .nil⟩
  | @cons before kind c body pieces hnext hreads ih =>
    obtain ⟨hliteral, hplain⟩ := List.forall_mem_cons.mp hplain
    obtain ⟨others, hreturned, hothers⟩ := ih hplain
    have hread : nextPiece dialect before c (body ++ textOf pieces) = .ok (kind, textOf pieces) :=
      hnext
    have hcuts := nextPiece_cuts hread
    by_cases hc : c = '\n'
    · subst hc
      obtain rfl := kind_of_break hread
      have hbreak : nextPiece dialect before '\n' (body ++ textOf pieces) =
        .ok (.token .newline, body ++ textOf pieces) := rfl
      have hbody := congrArg Prod.snd (Except.ok.inj (hbreak.symm.trans hread))
      obtain rfl : body = [] := by simpa using hbody
      have hblank : Cuts dialect before '\r' ('\n' :: textOf others) .blank
        ('\n' :: textOf others) := .blank (by decide)
      have hmark : Cuts dialect before '\n' (textOf others) (.token .newline) (textOf others) :=
        .newline rfl
      exact ⟨_, .newline hreturned, .cons hblank.nextPiece (.cons hmark.nextPiece hothers)⟩
    by_cases hline : kind = .lineComment
    · subst hline
      have hnone (token : TokenKind) : PieceKind.lineComment ≠ .token token := by simp
      obtain ⟨mark, later, hmark, hends, hlater, hreturned⟩ := hreturned.behind_line hnone
        (lineEnds_of_lineComment hread) hreads hothers
      refine ⟨_, hreturned, ?_⟩
      rw [Text.withReturns_cons hc, List.cons_append]
      exact .cons (hcuts.lineComment_withReturns hmark hends).nextPiece hlater
    · have hcut := hcuts.withReturns hline hliteral
      rw [Text.withReturns_append, ← hreturned.textOf_eq] at hcut
      refine ⟨_, .same ?_ ?_ hreturned, ?_⟩
      · rintro rfl
        generalize body ++ textOf pieces = text at hcuts
        generalize textOf pieces = rest at hcuts
        cases hcuts
        exact hc ‹_›
      · rintro rfl
        exact notMem_of_word hread
      · rw [Text.withReturns_cons hc]
        exact .cons hcut.nextPiece hothers

/-- A script starts with the name of an interpreter, if it did before. -/
theorem names_interpreter_withReturns_iff :
    ['#', '!'] <+: Text.withReturns text ↔ ['#', '!'] <+: text := by
  rw [← List.isPrefixOf_iff_prefix, ← List.isPrefixOf_iff_prefix,
    Text.isPrefixOf_withReturns (by decide) (by decide)]

/-- A script is read as before with carriage returns before line feeds, if no literal escapes a line
break. -/
theorem ReadsScript.withReturns {cut : List Piece} (h : ReadsScript dialect cut)
    (hplain : EscapeNoBreak cut) : ∃ others, Returned cut others ∧ ReadsScript dialect others := by
  cases h with
  | plain hnames hreads =>
    obtain ⟨others, hreturned, hothers⟩ := reads_withReturns hreads hplain
    refine ⟨others, hreturned, .plain ?_ hothers⟩
    rwa [hreturned.textOf_eq, names_interpreter_withReturns_iff]
  | @interpreter line later hnames hline hend hreads =>
    obtain ⟨others, hreturned, hothers⟩ := reads_withReturns hreads (List.forall_mem_cons.mp hplain).2
    have hnone (token : TokenKind) : PieceKind.interpreter ≠ .token token := by simp
    obtain ⟨mark, rest, hmark, hends, hrest, hreturned⟩ :=
      hreturned.behind_line hnone hend hreads hothers
    refine ⟨_, hreturned, .interpreter ?_ ?_ hends hrest⟩
    · exact (names_interpreter_withReturns_iff.mpr hnames).trans (List.prefix_append _ _)
    · simp [hline, hmark]

/-- Behind a line a text with carriage returns before line feeds starts with a line feed, and so it
can be read with a carriage return before that. -/
theorem reads_behind_line (h : (rule dialect).Reads before others)
    (htext : textOf others = (Text.withReturns text).dropWhile (· != '\n')) :
    ∃ more, (rule dialect).Reads before more ∧
      textOf more = Text.withReturns (text.dropWhile (· != '\n')) := by
  induction text using Text.lines_induction with
  | last line hline =>
    have hends : LineEnds [] := by simp [LineEnds]
    have hnone : line.dropWhile (· != '\n') = [] := by
      simpa using (takeWhile_line hline hends).2
    refine ⟨others, h, ?_⟩
    rw [htext, Text.withReturns_of_notMem hline, hnone, Text.withReturns_nil]
  | more line rest hline _ =>
    have hends (rest : List Char) : LineEnds ('\n' :: rest) := by simp [LineEnds]
    have hreturn : '\n' ∉ line ++ ['\r'] := by simp [hline]
    rw [Text.withReturns_append, Text.withReturns_of_notMem hline, Text.withReturns_break,
      List.append_cons, (takeWhile_line hreturn (hends _)).2] at htext
    have hblank : Cuts dialect before '\r' ([] ++ textOf others) .blank (textOf others) :=
      .blank (by decide)
    refine ⟨⟨.blank, ['\r']⟩ :: others, .cons hblank.nextPiece h, ?_⟩
    rw [(takeWhile_line hline (hends _)).2, textOf_cons, htext]
    rfl

/-- Behind a piece that is a single character the rest of the text is read. -/
theorem reads_behind_char (hread : nextPiece dialect before c text = .ok (kind, text))
    (h : (rule dialect).Reads before others) (htext : textOf others = c :: text) :
    ∃ later, (rule dialect).Reads (kind.orBefore before) later ∧ textOf later = text := by
  obtain ⟨_, later, hnext, hlater⟩ := h.next htext
  obtain ⟨rfl, hrest⟩ := Prod.mk.inj (Except.ok.inj (hread.symm.trans hnext))
  exact ⟨later, hlater, hrest.symm⟩

/-- A text that is read with carriage returns before line feeds is read without, and no literal in
it escapes a line break. -/
theorem reads_of_withReturns (h : (rule dialect).Reads before others)
    (htext : textOf others = Text.withReturns text) :
    ∃ pieces, (rule dialect).Reads before pieces ∧ EscapeNoBreak pieces ∧ textOf pieces = text := by
  induction hlength : text.length using Nat.strongRecOn generalizing before others text with
  | ind length ih =>
    subst hlength
    cases text with
    | nil => exact ⟨[], .nil, by simp [EscapeNoBreak], rfl⟩
    | cons c text =>
      -- What is read next, and how the rest of the other text is read.
      have hstep : ∃ kind rest more, Cuts dialect before c text kind rest ∧
          (∀ body, text = body ++ rest → kind = .token .string →
            literalEscapesBreak (c :: body) = false) ∧
          (rule dialect).Reads (kind.orBefore before) more ∧
            textOf more = Text.withReturns rest := by
        by_cases hc : c = '\n'
        · subst hc
          have hblank : nextPiece dialect before '\r' ('\n' :: Text.withReturns text) =
            .ok (.blank, '\n' :: Text.withReturns text) := rfl
          have hbreak : nextPiece dialect before '\n' (Text.withReturns text) =
            .ok (.token .newline, Text.withReturns text) := rfl
          obtain ⟨more, hmore, hrest⟩ := reads_behind_char hblank h htext
          obtain ⟨later, hlater, hrest⟩ := reads_behind_char hbreak hmore hrest
          exact ⟨_, text, later, .newline rfl, fun _ _ hstring => (nomatch hstring), hlater,
            hrest⟩
        · rw [Text.withReturns_cons hc] at htext
          obtain ⟨kind, more, hnext, hmore⟩ := h.next htext
          have hcuts := nextPiece_cuts hnext
          by_cases hline : kind = .lineComment
          · subst hline
            generalize hlater : textOf more = later at hcuts
            cases hcuts with
            | lineComment hc hhead hrest =>
              obtain ⟨more, hmore, hrest⟩ := reads_behind_line hmore (hlater.trans hrest.symm)
              rw [Text.head?_withReturns (by decide) (by decide)] at hhead
              exact ⟨_, _, more, .lineComment hc hhead rfl, fun _ _ hstring => (nomatch hstring),
                hmore, hrest⟩
          · obtain ⟨rest, hrest, hcut⟩ := hcuts.of_withReturns hline
            refine ⟨kind, rest, more, hcut, ?_, hmore, hrest⟩
            rintro body rfl hstring
            exact Cuts.not_escapes hstring hcuts hcut
      obtain ⟨kind, rest, more, hcut, hplain, hmore, hrest⟩ := hstep
      obtain ⟨body, rfl⟩ := nextPiece_suffix hcut.nextPiece
      obtain ⟨pieces, hpieces, hothers, rfl⟩ := ih rest.length
        (by simp only [List.length_cons, List.length_append]; omega) hmore hrest rfl
      exact ⟨_, .cons hcut.nextPiece hpieces,
        List.forall_mem_cons.mpr ⟨hplain body rfl, hothers⟩, rfl⟩

/-- A script that is read with carriage returns before line feeds is read without, and no literal in
it escapes a line break. -/
theorem ReadsScript.of_withReturns (h : ReadsScript dialect others)
    (htext : textOf others = Text.withReturns source) :
    ∃ cut, ReadsScript dialect cut ∧ EscapeNoBreak cut ∧ textOf cut = source := by
  cases h with
  | plain hnames hreads =>
    rw [htext, names_interpreter_withReturns_iff] at hnames
    obtain ⟨cut, hcut, hplain, rfl⟩ := reads_of_withReturns hreads htext
    exact ⟨cut, .plain hnames hcut, hplain, rfl⟩
  | @interpreter line later hnames hline hend hreads =>
    have hlater : textOf later = (Text.withReturns source).dropWhile (· != '\n') := by
      rw [← htext]
      exact (takeWhile_line hline hend).2.symm
    obtain ⟨more, hmore, hrest⟩ := reads_behind_line hreads hlater
    obtain ⟨cut, hcut, hplain, hrest⟩ := reads_of_withReturns hmore hrest
    have hsource : ['#', '!'] <+: source := by
      rw [← names_interpreter_withReturns_iff, ← htext]
      exact hnames.trans (List.prefix_append _ _)
    refine ⟨⟨.interpreter, source.takeWhile (· != '\n')⟩ :: cut, .interpreter ?_ ?_ ?_ hcut,
      List.forall_mem_cons.mpr ⟨fun hstring => (nomatch hstring), hplain⟩, ?_⟩
    · obtain ⟨rest, rfl⟩ := hsource
      exact ⟨rest.takeWhile (· != '\n'), rfl⟩
    · intro hmem
      simpa using List.mem_takeWhile_imp hmem
    · rw [hrest]
      intro c hc
      have hstop := List.head?_dropWhile_not (· != '\n') source
      rw [hc] at hstop
      simpa using hstop
    · rw [textOf_cons, hrest, List.takeWhile_append_dropWhile]

/-- Tokens correspond that lie at the same places of a script, with and without carriage returns. A
line break starts behind its carriage return. -/
def sameBytes (source : List Char) : Correspondence where
  like token twin := twin.kind = token.kind ∧ (token.kind = .word → twin.text = token.text) ∧
    (token.kind ≠ .newline → Text.SameByte source token.start twin.start) ∧
    Text.SameByte source token.stop twin.stop
  kind_eq _ _ h := h.1
  word_eq _ _ h := h.2.1

/-- Line breaks correspond that end at the same place. -/
theorem sameBytes_newline {read : List Char} {start otherStart : Nat} (line otherLine : Nat)
    (hsource : source = read ++ rest)
    (hstop : start + Text.byteLength ['\n'] = Text.byteLength read)
    (hother : otherStart + Text.byteLength ['\n'] = Text.byteLength (Text.withReturns read)) :
    (sameBytes source).like ⟨.newline, ['\n'], start, line⟩
      ⟨.newline, ['\n'], otherStart, otherLine⟩ :=
  ⟨rfl, fun _ => rfl, fun hkind => (hkind rfl).elim, read, rest, hsource, hstop, hother⟩

/-- The tokens of a script correspond to those with carriage returns before line feeds. -/
theorem Returned.twins {read : List Char} {last otherLast : Option Token} {start otherStart : Nat}
    (h : Returned pieces others) (line otherLine : Nat) (hsource : source = read ++ textOf pieces)
    (hstart : start = Text.byteLength read)
    (hother : otherStart = Text.byteLength (Text.withReturns read))
    (htouch : TouchesAlike last otherLast start otherStart) :
    Twins (sameBytes source).like last otherLast (tokensFrom start line pieces)
      (tokensFrom otherStart otherLine others) := by
  induction h generalizing read last otherLast start otherStart line otherLine with
  | nil => exact .nil
  | @newline pieces others _ ih =>
    have hsplit : source = (read ++ ['\n']) ++ textOf pieces := by rw [hsource]; simp
    have hstop : start + Text.byteLength ['\n'] = Text.byteLength (read ++ ['\n']) := by
      rw [hstart, Text.byteLength_append]
    have hotherStop : otherStart + Text.byteLength ['\r'] + Text.byteLength ['\n'] =
        Text.byteLength (Text.withReturns (read ++ ['\n'])) := by
      simp [hother, Nat.add_assoc]
    exact .cons (sameBytes_newline line _ hsplit hstop hotherStop) (fun mark hmark => nomatch hmark)
      (ih _ _ hsplit hstop hotherStop (.behind _ _))
  | @line kind hkind body pieces others _ ih =>
    have hsplit : source = (read ++ body ++ ['\n']) ++ textOf pieces := by rw [hsource]; simp
    have hstop : start + Text.byteLength body + Text.byteLength ['\n'] =
        Text.byteLength (read ++ body ++ ['\n']) := by
      rw [hstart, Text.byteLength_append, Text.byteLength_append]
    have hotherStop : otherStart + Text.byteLength (Text.withReturns body ++ ['\r']) +
        Text.byteLength ['\n'] = Text.byteLength (Text.withReturns (read ++ body ++ ['\n'])) := by
      simp [hother, Nat.add_assoc]
    have hrest (line otherLine : Nat) : Twins (sameBytes source).like last otherLast
        (tokensFrom (start + Text.byteLength body) line (⟨.token .newline, ['\n']⟩ :: pieces))
        (tokensFrom (otherStart + Text.byteLength (Text.withReturns body ++ ['\r'])) otherLine
          (⟨.token .newline, ['\n']⟩ :: others)) :=
      .cons (sameBytes_newline line _ hsplit hstop hotherStop) (fun mark hmark => nomatch hmark)
        (ih _ _ hsplit hstop hotherStop (.behind _ _))
    cases kind with
    | token kind => exact (hkind kind rfl).elim
    | _ => exact hrest _ _
  | @same kind hkind text hword pieces others _ ih =>
    have hsplit : source = (read ++ text) ++ textOf pieces := by rw [hsource]; simp
    have hstop : start + Text.byteLength text = Text.byteLength (read ++ text) := by
      rw [hstart, Text.byteLength_append]
    have hotherStop : otherStart + Text.byteLength (Text.withReturns text) =
        Text.byteLength (Text.withReturns (read ++ text)) := by
      rw [hother, Text.withReturns_append, Text.byteLength_append]
    cases kind with
    | token kind =>
      refine .cons ⟨rfl, fun hkind => ?_, fun _ => ⟨_, _, hsource, hstart, hother⟩,
        _, _, hsplit, hstop, hotherStop⟩ htouch.touchAlike
        (ih _ _ hsplit hstop hotherStop (.behind _ _))
      exact Text.withReturns_of_notMem (hword (congrArg _ hkind))
    | _ =>
      have hempty : Text.byteLength text = 0 ↔ Text.byteLength (Text.withReturns text) = 0 := by
        rw [Text.byteLength_eq_zero_iff, Text.byteLength_eq_zero_iff, Text.withReturns_eq_nil_iff]
      exact ih _ _ hsplit hstop hotherStop (htouch.further hempty)

/-- Whether a backslash in a literal of a script takes a line feed with it. -/
def escapesBreaks (dialect : Dialect) (source : List Char) : Bool :=
  match tokens dialect source with
  | .ok found => found.any fun token => token.kind == .string && literalEscapesBreak token.text
  | .error _ => false

/-- No literal of a script escapes a line break exactly if none among its pieces does. -/
theorem escapesBreaks_eq_false_iff {cut : List Piece} {line : Nat}
    (htokens : tokens dialect source = .ok (tokensFrom 0 line cut)) :
    escapesBreaks dialect source = false ↔ EscapeNoBreak cut := by
  simp only [escapesBreaks, htokens, List.any_eq_false, Bool.and_eq_true, beq_iff_eq, not_and,
    Bool.not_eq_true, EscapeNoBreak]
  constructor
  · rintro h ⟨_, text⟩ hpiece rfl
    obtain ⟨before, after, rfl⟩ := List.append_of_mem hpiece
    exact h _ (mem_tokensFrom 0 line before after .string text) rfl
  · rintro h token htoken hstring
    obtain ⟨earlier, later, hsplit⟩ := List.append_of_mem htoken
    obtain ⟨before, after, rfl, _⟩ := tokensFrom_split hsplit
    exact h ⟨.token token.kind, token.text⟩ (by simp) (congrArg _ hstring)

/-- A script is cut into corresponding tokens with carriage returns before line feeds. -/
theorem tokens_withReturns {found : List Token} (hplain : escapesBreaks dialect source = false)
    (htokens : tokens dialect source = .ok found) :
    ∃ others, tokens dialect (Text.withReturns source) = .ok others ∧
      Twins (sameBytes source).like none none found others := by
  obtain ⟨cut, hcut, rfl, rfl⟩ := tokens_eq_ok_iff.mp htokens
  have hliterals := (escapesBreaks_eq_false_iff htokens).mp hplain
  obtain ⟨others, hreturned, hothers⟩ := hcut.withReturns hliterals
  exact ⟨_, tokens_eq_ok_iff.mpr ⟨others, hothers, hreturned.textOf_eq, rfl⟩,
    hreturned.twins 1 1 (List.nil_append _).symm rfl rfl ⟨by simp, by simp, by simp⟩⟩

/-- A script that is cut into tokens with carriage returns before line feeds is so without, and no
literal in it escapes a line break. -/
theorem tokens_of_withReturns {others : List Token}
    (htokens : tokens dialect (Text.withReturns source) = .ok others) :
    ∃ found, tokens dialect source = .ok found ∧ escapesBreaks dialect source = false := by
  obtain ⟨cut, hcut, htext, _⟩ := tokens_eq_ok_iff.mp htokens
  obtain ⟨cut, hcut, hplain, htext⟩ := hcut.of_withReturns htext
  have hfound : tokens dialect source = .ok (tokensFrom 0 1 cut) :=
    tokens_eq_ok_iff.mpr ⟨cut, hcut, htext, rfl⟩
  exact ⟨_, hfound, (escapesBreaks_eq_false_iff hfound).mpr hplain⟩

/-- With carriage returns before line feeds the tree of a script has nodes at the same places. -/
theorem tree_withReturns {root : Node} (hplain : escapesBreaks dialect source = false)
    (htree : tree dialect source = .ok root) :
    ∃ twin, tree dialect (Text.withReturns source) = .ok twin ∧
      Node.AllAlike (Node.SameRange source) [root] [twin] := by
  obtain ⟨found, items, htokens, hitems, rfl⟩ := tree_eq_ok_iff.mp htree
  obtain ⟨others, hothers, htwins⟩ := tokens_withReturns hplain htokens
  obtain ⟨otherItems, hotherItems, halike⟩ := Correspondence.outline htwins hitems
  refine ⟨_, tree_eq_ok_iff.mpr ⟨others, otherItems, hothers, hotherItems, rfl⟩,
    .cons ⟨rfl, ⟨[], source, rfl, rfl, rfl⟩, source, [], by simp, rfl, rfl⟩ ?_ .nil⟩
  refine halike.nodes.imp fun node twin hspan => ?_
  obtain ⟨first, otherFirst, ⟨_, _, hfirst, _⟩, hbreak, hstart, hotherStart, _, _⟩ := hspan.starts
  obtain ⟨last, otherLast, ⟨_, _, _, hlast⟩, hstop, hotherStop⟩ := hspan.stops
  refine ⟨hspan.kind, ?_, ?_⟩
  · rw [hstart, hotherStart]
    exact hfirst hbreak
  · rwa [hstop, hotherStop]

/-- A script that has a tree with carriage returns before line feeds has one without, and no literal
in it escapes a line break. -/
theorem tree_of_withReturns {twin : Node}
    (htree : tree dialect (Text.withReturns source) = .ok twin) :
    escapesBreaks dialect source = false ∧ ∃ root, tree dialect source = .ok root := by
  obtain ⟨_, otherItems, hothers, hotherItems, rfl⟩ := tree_eq_ok_iff.mp htree
  obtain ⟨found, hfound, hplain⟩ := tokens_of_withReturns hothers
  obtain ⟨others, hsame, htwins⟩ := tokens_withReturns hplain hfound
  obtain rfl := Except.ok.inj (hothers.symm.trans hsame)
  obtain ⟨items, hitems⟩ := Correspondence.exists_outline htwins hotherItems
  exact ⟨hplain, _, tree_eq_ok_iff.mpr ⟨found, items, hfound, hitems, rfl⟩⟩

end CorpusFacts.Script
