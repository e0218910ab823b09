import CorpusFacts.Proofs.Script.Comments
import CorpusFacts.Proofs.Script.Descent

/-!
# Reading a script from its bytes

The front-end for scripts reads the tokens of a script by the places of its bytes, and builds the
tree by the places of its tokens. For every script, in either dialect, both walks end, neither looks
anything up beyond the end, and together they come to the tree of the script or are rejected where
it is. The tokens are not empty and lie one behind the other, with nothing but blanks and comments
between them, and a first line that names an interpreter. A script is rejected on one of its lines,
since what is blamed starts with a character that is no line break.
-/

namespace CorpusFacts.Script

variable {dialect : Dialect} {nests : Bool} {before : Option TokenKind} {source : List Char}

/-! ## Between tokens -/

/-- A text that closes a comment between delimiters which is open inside of `depth` others: the
delimiters in it match, and only where comments nest does an opening one count. -/
inductive ClosesComment (nests : Bool) : (depth : Nat) → List Char → Prop
  /-- The last closing delimiter. -/
  | last : ClosesComment nests 0 ['*', '/']
  /-- A closing delimiter of a comment inside. -/
  | close {depth : Nat} {text : List Char} (hrest : ClosesComment nests depth text) :
      ClosesComment nests (depth + 1) ('*' :: '/' :: text)
  /-- The opening delimiter of a comment inside. -/
  | opens {depth : Nat} {text : List Char} (hnests : nests = true)
      (hrest : ClosesComment nests (depth + 1) text) :
      ClosesComment nests depth ('/' :: '*' :: text)
  /-- A character that starts no delimiter. -/
  | char {depth : Nat} {c : Char} {text : List Char} (hclose : c = '*' → text.head? ≠ some '/')
      (hopen : nests = true → c = '/' → text.head? ≠ some '*')
      (hrest : ClosesComment nests depth text) : ClosesComment nests depth (c :: text)

/-- Blanks and comments. -/
inductive Filler (nests : Bool) : List Char → Prop
  /-- Nothing. -/
  | nil : Filler nests []
  /-- A blank of a line. -/
  | blank {c : Char} {text : List Char} (hgap : isGap c = true) (hrest : Filler nests text) :
      Filler nests (c :: text)
  /-- A comment up to the end of its line, where a token stands or nothing. -/
  | lineComment {line : List Char} (hline : '\n' ∉ line) : Filler nests ('/' :: '/' :: line)
  /-- A comment between delimiters. -/
  | blockComment {body text : List Char} (hbody : ClosesComment nests 0 body)
      (hrest : Filler nests text) : Filler nests ('/' :: '*' :: (body ++ text))

/-- What the scan over a comment takes closes the comment. -/
theorem closesComment_of_scan {opened body rest : List Char} {depth : Nat}
    (h : afterBlockComment nests opened (depth + 1) (body ++ rest) = .ok rest) :
    ClosesComment nests depth body := by
  induction hlength : body.length using Nat.strong_induction_on generalizing body depth with
  | _ length ih =>
    have hlong := afterBlockComment_length h
    rw [List.length_append] at hlong
    rcases body with _ | ⟨c, _ | ⟨d, body⟩⟩
    · simp at hlong
    · simp at hlong
      omega
    · rw [List.cons_append, List.cons_append, ByteReader.afterBlockComment_cons] at h
      simp only [List.head?_cons, Option.some.injEq, List.tail_cons, Nat.add_sub_cancel] at h
      split_ifs at h with hclose hlast hopen
      · obtain ⟨rfl, rfl⟩ := hclose
        have hbody : body = [] := by simpa using h
        subst hlast hbody
        exact .last
      · obtain ⟨rfl, rfl⟩ := hclose
        obtain ⟨deeper, rfl⟩ := Nat.exists_eq_succ_of_ne_zero hlast
        exact .close (ih body.length (by simp at hlength; omega) h rfl)
      · obtain ⟨rfl, rfl, hnests⟩ := hopen
        exact .opens hnests (ih body.length (by simp at hlength; omega) h rfl)
      · refine .char (fun hc hd => hclose ⟨hc, by simpa using hd⟩)
          (fun hnests hc hd => hopen ⟨hc, by simpa using hd, hnests⟩) ?_
        exact ih (d :: body).length (by simp at hlength ⊢; omega) h rfl

/-- Behind a line that ends there is no blank or comment, but a line break. -/
theorem eq_nil_of_lineEnds {gaps later : List Piece}
    (hreads : (rule dialect).Reads before (gaps ++ later))
    (hgaps : ∀ gap ∈ gaps, ∀ kind, gap.kind ≠ .token kind)
    (hends : LineEnds (textOf (gaps ++ later))) : gaps = [] := by
  cases gaps with
  | nil => rfl
  | cons gap gaps =>
    rw [List.cons_append] at hreads hends
    generalize hpieces : gaps ++ later = pieces at hreads hends
    cases hreads with
    | @cons _ kind c body _ hnext _ =>
      obtain rfl : c = '\n' := hends c rfl
      have hbreak := kind_of_break (show nextPiece dialect before '\n' _ = _ from hnext)
      exact absurd hbreak (hgaps _ (List.mem_cons_self ..) _)

/-- Pieces between tokens are blanks and comments. -/
theorem filler_of_reads {gaps later : List Piece}
    (hreads : (rule dialect).Reads before (gaps ++ later))
    (hgaps : ∀ gap ∈ gaps, ∀ kind, gap.kind ≠ .token kind) :
    Filler (dialect == .kotlin) (textOf gaps) := by
  induction gaps generalizing before with
  | nil => exact .nil
  | cons gap gaps ih =>
    rw [List.cons_append] at hreads
    generalize hpieces : gaps ++ later = pieces at hreads
    cases hreads with
    | @cons _ kind c body _ hnext hlater =>
      subst hpieces
      have hinner : ∀ other ∈ gaps, ∀ kind, other.kind ≠ .token kind := fun other hother =>
        hgaps other (List.mem_cons_of_mem _ hother)
      have hrest := ih hlater hinner
      have hkind := hgaps _ (List.mem_cons_self ..)
      have hcuts := nextPiece_cuts hnext
      have hnoline : kind = .lineComment → gaps = [] := by
        rintro rfl
        exact eq_nil_of_lineEnds hlater hinner (lineEnds_of_lineComment hnext)
      rw [textOf_cons, List.cons_append]
      generalize htext : body ++ textOf (gaps ++ later) = text at hcuts
      generalize textOf (gaps ++ later) = rest at hcuts htext
      cases hcuts with
      | blank hgap =>
        obtain rfl : body = [] := by simpa using htext
        exact .blank hgap hrest
      | lineComment hc hhead hline =>
        obtain rfl := hnoline rfl
        subst htext hc
        have hbody : '\n' ∉ body := notMem_of_dropWhile (by decide) hline
        cases body with
        | nil =>
          obtain ⟨later, rfl⟩ := List.head?_eq_some_iff.mp hhead
          have hlength := congrArg List.length hline
          have := (List.dropWhile_suffix (l := later) (· != '\n')).length_le
          simp at hlength
          omega
        | cons d line =>
          obtain rfl : d = '/' := by simpa using hhead
          rw [textOf_nil, List.append_nil]
          exact .lineComment fun hmem => hbody (List.mem_cons_of_mem _ hmem)
      | blockComment hc hhead hscan =>
        subst htext hc
        have hlong := afterBlockComment_length hscan
        cases body with
        | nil =>
          simp at hlong
          omega
        | cons d body =>
          obtain rfl : d = '*' := by simpa using hhead
          exact .blockComment (closesComment_of_scan hscan) hrest
      | _ => exact absurd rfl (hkind _)

/-- The pieces up to the next token. -/
theorem exists_gaps {start line : Nat} {pieces : List Piece} {later : List Token}
    (h : tokensFrom start line pieces = later) :
    ∃ gaps rest, pieces = gaps ++ rest ∧ (∀ gap ∈ gaps, ∀ kind, gap.kind ≠ .token kind) ∧
      (∀ piece ∈ rest.head?, ∃ kind, piece.kind = .token kind) ∧
      start + Text.byteLength (textOf gaps) =
        (later.head?.map (·.start)).getD (start + Text.byteLength (textOf pieces)) := by
  induction pieces generalizing start line with
  | nil => exact ⟨[], [], rfl, by simp, by simp, by rw [← h]; rfl⟩
  | cons piece pieces ih =>
    obtain ⟨kind, text⟩ := piece
    cases kind with
    | token kind =>
      refine ⟨[], ⟨.token kind, text⟩ :: pieces, rfl, by simp, ?_, by rw [← h]; rfl⟩
      intro piece hpiece
      obtain rfl : _ = piece := by simpa using hpiece
      exact ⟨kind, rfl⟩
    | _ =>
      obtain ⟨gaps, rest, rfl, hgaps, hrest, hstart⟩ := ih h
      refine ⟨⟨_, text⟩ :: gaps, rest, rfl, ?_, hrest, ?_⟩
      · simpa using hgaps
      · rw [textOf_cons, textOf_cons, Text.byteLength_append, Text.byteLength_append,
          ← Nat.add_assoc, hstart, Nat.add_assoc]

/-- The text between two bytes of a script has a property. -/
def HasBetween (source : List Char) (start stop : Nat) (p : List Char → Prop) : Prop :=
  ∃ before gap behind, source = before ++ (gap ++ behind) ∧ Text.byteLength before = start ∧
    start + Text.byteLength gap = stop ∧ p gap

/-- Ranges of tokens in a script: none is empty, they lie one behind the other, and between them are
blanks and comments only; before the first one a first line may name an interpreter. -/
structure AreApart (nests : Bool) (source : List Char) (spans : List TokenSpan) : Prop where
  /-- Every range has a byte and lies in the script. -/
  within : ∀ span ∈ spans, span.start < span.stop ∧ span.stop ≤ Text.byteLength source
  /-- Each range ends before the next one starts. -/
  apart : spans.Pairwise (·.stop ≤ ·.start)
  /-- What is before, between and behind them is filled. -/
  filled : ∀ earlier later, spans = earlier ++ later →
    HasBetween source ((earlier.getLast?.map (·.stop)).getD 0)
      ((later.head?.map (·.start)).getD (Text.byteLength source)) fun gap =>
        Filler nests gap ∨ earlier = [] ∧ ['#', '!'] <+: gap ∧ '\n' ∉ gap

/-- Before the first token of a script are blanks and comments, or a line that names an
interpreter. -/
theorem ReadsScript.filled_start {cut : List Piece} (hreads : ReadsScript dialect cut) :
    HasBetween (textOf cut) 0
      (((tokensFrom 0 1 cut).head?.map (·.start)).getD (Text.byteLength (textOf cut))) fun gap =>
        Filler (dialect == .kotlin) gap ∨ ['#', '!'] <+: gap ∧ '\n' ∉ gap := by
  obtain ⟨gaps, rest, rfl, hgaps, hrest, hstart⟩ :=
    exists_gaps (show tokensFrom 0 1 cut = tokensFrom 0 1 cut from rfl)
  rw [Nat.zero_add, Nat.zero_add] at hstart
  refine ⟨[], textOf gaps, textOf rest, by simp, rfl, by rw [Nat.zero_add, hstart], ?_⟩
  generalize hcut : gaps ++ rest = cut at hreads
  cases hreads with
  | plain _ hreads => exact Or.inl (filler_of_reads (hcut ▸ hreads) hgaps)
  | @interpreter line later hnames hline hends hreads =>
    cases gaps with
    | nil =>
      rw [List.nil_append] at hcut
      obtain ⟨kind, hkind⟩ := hrest ⟨.interpreter, line⟩ (by simp [hcut])
      cases hkind
    | cons first gaps =>
      obtain ⟨rfl, rfl⟩ := List.cons.inj hcut
      have hnone := eq_nil_of_lineEnds hreads
        (fun gap hgap => hgaps gap (List.mem_cons_of_mem _ hgap)) hends
      subst hnone
      exact Or.inr ⟨by simpa using hnames, by simpa using hline⟩

/-- Behind each token of a script are blanks and comments, up to the next one. -/
theorem ReadsScript.filled_behind {cut : List Piece} (hreads : ReadsScript dialect cut)
    {earlier later : List Token} {token : Token}
    (hfound : tokensFrom 0 1 cut = earlier ++ token :: later) :
    HasBetween (textOf cut) token.stop
      ((later.head?.map (·.start)).getD (Text.byteLength (textOf cut)))
      (Filler (dialect == .kotlin)) := by
  obtain ⟨before, after, rfl, -, hstart, -, hlater⟩ := tokensFrom_split hfound
  obtain ⟨gaps, rest, rfl, hgaps, -, hnext⟩ := exists_gaps hlater
  obtain ⟨kind, hbehind⟩ := hreads.tail (by simp)
  obtain ⟨_, hgapped⟩ := PieceRule.Reads.tail (List.singleton_append ▸ hbehind)
  have hstop : Text.byteLength (textOf before ++ token.text) = token.stop := by
    rw [Text.byteLength_append, Token.stop, hstart, Nat.zero_add]
  refine ⟨textOf before ++ token.text, textOf gaps, textOf rest, by simp, hstop, ?_, ?_⟩
  · rw [hnext, ← hstop]
    simp [Nat.add_assoc]
  · exact filler_of_reads hgapped hgaps

/-- The tokens of a script lie apart. -/
theorem areApart_of_tokens {found : List Token} (hfound : tokens dialect source = .ok found) :
    AreApart (dialect == .kotlin) source (found.map TokenSpan.of) := by
  have hordered := tokens_ordered hfound
  obtain ⟨cut, hreads, rfl, rfl⟩ := tokens_eq_ok_iff.mp hfound
  constructor
  · intro span hspan
    obtain ⟨token, htoken, rfl⟩ := List.mem_map.mp hspan
    have hbounds := (mem_tokensFrom_bounds htoken).2
    rw [Nat.zero_add] at hbounds
    exact ⟨hordered.proper token htoken, hbounds⟩
  · exact List.pairwise_map.mpr hordered.apart
  · intro earlier later hsplit
    obtain ⟨front, back, htokens, rfl, rfl⟩ := List.map_eq_append_iff.mp hsplit
    rcases List.eq_nil_or_concat' front with rfl | ⟨front, token, rfl⟩
    · obtain ⟨before, gap, behind, htext, hstart, hstop, hgap⟩ := hreads.filled_start
      refine ⟨before, gap, behind, htext, hstart, ?_, hgap.imp_right fun h => ⟨rfl, h⟩⟩
      rw [htokens] at hstop
      simpa [Function.comp_def, TokenSpan.of] using hstop
    · obtain ⟨before, gap, behind, htext, hstart, hstop, hgap⟩ :=
        hreads.filled_behind (show _ = front ++ token :: back by simpa using htokens)
      refine ⟨before, gap, behind, htext, ?_, ?_, Or.inl hgap⟩
      · simpa [TokenSpan.of] using hstart
      · simpa [Function.comp_def, TokenSpan.of] using hstop

/-! ## The lines of errors -/

/-- A text at the end of a script that starts with a character of a line. -/
def StartsOnLine (source text : List Char) : Prop :=
  text <:+ source ∧ ∃ c ∈ text.head?, c ≠ '\n'

/-- What starts with a character of a line is on one of the lines of the script. -/
theorem StartsOnLine.lineOfEnd_le {text : List Char} (h : StartsOnLine source text) :
    1 ≤ lineOfEnd source text ∧ lineOfEnd source text ≤ Text.lineCount source := by
  obtain ⟨⟨front, rfl⟩, c, hhead, hc⟩ := h
  obtain ⟨more, rfl⟩ := List.head?_eq_some_iff.mp hhead
  refine ⟨by rw [lineOfEnd]; omega, ?_⟩
  rw [lineOfEnd, Text.newlines_append, Nat.add_sub_cancel, Text.lineCount]
  obtain ⟨init, last, hlast⟩ :=
    (List.eq_nil_or_concat' (c :: more)).resolve_left (List.cons_ne_nil _ _)
  rw [hlast, ← List.append_assoc, List.getLast?_concat]
  simp only [Text.newlines_append]
  split
  · rename_i hbreak
    have hone : Text.newlines [last] = 1 := by
      rw [beq_iff_eq.mp hbreak]
      rfl
    omega
  · omega

/-- A character that is no line break, in a script, starts a text on its line. -/
theorem startsOnLine_cons {c : Char} {text : List Char} (htext : c :: text <:+ source)
    (hc : c ≠ '\n') : StartsOnLine source (c :: text) :=
  ⟨htext, c, rfl, hc⟩

/-- A literal that does not end starts on a line. -/
theorem closeLiterals_error {opened : List OpenLiteral} {text : List Char} {ended : OpenEnded}
    (hopened : ∀ literal ∈ opened, StartsOnLine source literal.unterminated.text)
    (htext : text <:+ source) (h : closeLiterals opened text = .error ended) :
    StartsOnLine source ended.text := by
  fun_induction closeLiterals opened text
  case case1 => cases h
  all_goals obtain ⟨hinner, houter⟩ := List.forall_mem_cons.mp hopened
  case case22 | case23 | case24 | case25 =>
    -- The literal that opens here starts with its quote.
    rename_i ih
    refine ih (List.forall_mem_cons.mpr ⟨startsOnLine_cons htext ?_, hopened⟩) ?_ h
    · rintro rfl
      contradiction
    · exact (by simp [List.suffix_cons_iff] : _ <:+ _).trans htext
  all_goals first
    | (cases h
       exact hinner)
    | (rename_i ih
       refine ih ?_ ?_ h
       · simp_all only [List.forall_mem_cons, OpenLiteral.unterminated, implies_true, and_true]
       · exact (by simp [List.suffix_cons_iff] : _ <:+ _).trans htext)

/-- Where something is made of what a scan finds, it fails as the scan does. -/
theorem error_of_bind {α β : Type} {scan : Except OpenEnded α} {make : α → β} {ended : OpenEnded}
    (h : (do let rest ← scan; Except.ok (make rest)) = Except.error ended) :
    scan = .error ended := by
  cases scan with
  | error other => simpa [bind, Except.bind] using h
  | ok rest => cases h

/-- A quoted literal that does not end starts at its quote, or one inside of it does. -/
theorem afterString_error {quote : Char} {text : List Char} {ended : OpenEnded}
    (hquote : quote ≠ '\n') (htext : quote :: text <:+ source)
    (h : afterString quote text = .error ended) : StartsOnLine source ended.text := by
  have hstart := startsOnLine_cons htext hquote
  have hbehind := (List.suffix_cons quote text).trans htext
  rw [ByteReader.afterString_eq] at h
  split at h
  · exact closeLiterals_error (by simpa [OpenLiteral.unterminated] using hstart)
      (((List.tail_suffix _).trans (List.tail_suffix _)).trans hbehind) h
  · exact closeLiterals_error (by simpa [OpenLiteral.unterminated] using hstart) hbehind h

/-- A literal between slashes that does not end starts at its slash, or one inside of it does. -/
theorem afterSlashy_error {text : List Char} {ended : OpenEnded} (htext : '/' :: text <:+ source)
    (h : afterSlashy text = .error ended) : StartsOnLine source ended.text := by
  have hstart := startsOnLine_cons htext (by decide)
  exact closeLiterals_error (by simpa [OpenLiteral.unterminated] using hstart)
    ((List.suffix_cons '/' text).trans htext) h

/-- An identifier between backticks that does not end starts where the scan was told. -/
theorem afterBacktick_error {start text : List Char} {ended : OpenEnded}
    (h : afterBacktick start text = .error ended) : ended.text = start := by
  fun_induction afterBacktick start text with
  | case3 => cases h
  | case4 _ _ _ _ ih => exact ih h
  | _ => cases h; rfl

/-- A comment that does not end starts where the scan was told. -/
theorem afterBlockComment_error {start text : List Char} {depth : Nat} {ended : OpenEnded}
    (h : afterBlockComment nests start depth text = .error ended) : ended.text = start := by
  fun_induction afterBlockComment nests start depth text with
  | case1 | case2 => cases h; rfl
  | case3 => cases h
  | case4 _ _ _ _ _ _ ih | case5 _ _ _ _ _ _ ih | case6 _ _ _ _ _ _ ih => exact ih h

/-- What does not end starts on a line of the script. -/
theorem nextPiece_error {c : Char} {text : List Char} {ended : OpenEnded}
    (htext : c :: text <:+ source) (h : nextPiece dialect before c text = .error ended) :
    StartsOnLine source ended.text := by
  have hbreak : c ≠ '\n' := by
    rintro rfl
    cases h
  have hstart := startsOnLine_cons htext hbreak
  unfold nextPiece at h
  rcases ite_eq_iff.mp h with ⟨-, h⟩ | ⟨-, h⟩
  · cases h
  rcases ite_eq_iff.mp h with ⟨-, h⟩ | ⟨-, h⟩
  · cases h
  rcases ite_eq_iff.mp h with ⟨-, h⟩ | ⟨-, h⟩
  · cases h
  rcases ite_eq_iff.mp h with ⟨-, h⟩ | ⟨-, h⟩
  · cases h
  rcases ite_eq_iff.mp h with ⟨-, h⟩ | ⟨-, h⟩
  · rwa [afterBlockComment_error (error_of_bind h)]
  rcases ite_eq_iff.mp h with ⟨hslashy, h⟩ | ⟨-, h⟩
  · have hscan := error_of_bind h
    simp only [Bool.and_eq_true, beq_iff_eq] at hslashy
    obtain rfl : c = '/' := hslashy.1.1
    exact afterSlashy_error htext hscan
  rcases ite_eq_iff.mp h with ⟨-, h⟩ | ⟨-, h⟩
  · exact afterString_error hbreak htext (error_of_bind h)
  rcases ite_eq_iff.mp h with ⟨-, h⟩ | ⟨-, h⟩
  · rwa [afterBacktick_error (error_of_bind h)]
  split at h
  · cases h
  · cases h
  · split at h <;> cases h

/-- What does not end among the pieces of a text at the end of a script starts on one of its
lines. -/
theorem piecesAfter_error {text : List Char} {ended : OpenEnded} (htext : text <:+ source)
    (h : (rule dialect).piecesAfter before text = .error ended) :
    StartsOnLine source ended.text := by
  induction hlength : text.length using Nat.strong_induction_on generalizing before text with
  | _ length ih =>
    cases text with
    | nil => simp [PieceRule.piecesAfter] at h
    | cons c text =>
      rw [ByteReader.piecesAfter_cons] at h
      cases hnext : (rule dialect).next before c text with
      | error other =>
        rw [hnext] at h
        cases h
        exact nextPiece_error htext hnext
      | ok piece =>
        have hrest := (rule dialect).next_suffix hnext
        have hshorter : piece.2.length < length := by
          have := hrest.length_le
          simp at hlength
          omega
        rw [hnext] at h
        exact ih _ hshorter ((hrest.trans (List.suffix_cons c text)).trans htext)
          (error_of_bind h) rfl

/-- What does not end in a script starts on one of its lines. -/
theorem tokens_error {ended : OpenEnded} (h : tokens dialect source = .error ended) :
    StartsOnLine source ended.text := by
  have hpieces : pieces dialect source = .error ended := error_of_bind h
  by_cases hnames : ['#', '!'] <+: source
  · rw [pieces_of_interpreter dialect hnames] at hpieces
    exact piecesAfter_error (List.dropWhile_suffix _) (error_of_bind hpieces)
  · rw [pieces_of_plain dialect hnames] at hpieces
    exact piecesAfter_error List.suffix_rfl hpieces

/-- A token stands in its script at its byte and on its line, and it is a line break or starts on
a line. -/
theorem exists_place_of_token {found : List Token} {token : Token}
    (hfound : tokens dialect source = .ok found) (htoken : token ∈ found) :
    ∃ front behind, source = front ++ token.text ++ behind ∧
      Text.byteLength front = token.start ∧
      lineOfEnd source (token.text ++ behind) = token.line ∧
      (token.kind ≠ .newline → StartsOnLine source (token.text ++ behind)) := by
  obtain ⟨cut, hreads, rfl, rfl⟩ := tokens_eq_ok_iff.mp hfound
  obtain ⟨earlier, later, hsplit⟩ := List.append_of_mem htoken
  obtain ⟨before, after, rfl, -, hstart, hline, -⟩ := tokensFrom_split hsplit
  obtain ⟨last, htail⟩ := hreads.tail (by simp)
  refine ⟨textOf before, textOf after, by simp, by rw [hstart, Nat.zero_add], ?_, fun hkind => ?_⟩
  · rw [hline, lineOfEnd, textOf_append, textOf_cons, Text.newlines_append, Nat.add_sub_cancel]
  · generalize hpieces : (⟨.token token.kind, token.text⟩ : Piece) :: after = pieces at htail
    cases htail with
    | nil => cases hpieces
    | @cons _ kind c body _ hnext _ =>
      obtain ⟨hpiece, rfl⟩ := List.cons.inj hpieces
      obtain ⟨hkinds, htext⟩ := Piece.mk.inj hpiece
      refine ⟨⟨textOf before, by simp [htext]⟩, c, by simp [htext], ?_⟩
      rintro rfl
      rw [kind_of_break (show nextPiece dialect last '\n' _ = _ from hnext)] at hkinds
      exact hkind (by simpa using hkinds)

/-- A bracket that is blamed is among the open ones or the tokens. -/
theorem mem_of_blamed? {opened found : List Token} {token : Token}
    (h : blamed? opened found = some token) : token ∈ opened ++ found := by
  fun_induction blamed? opened found with
  | case1 opened => simpa using List.mem_of_head? h
  | _ => grind

/-- A script whose brackets do not match is rejected for one of its brackets. -/
theorem outline_error {found : List Token} {imbalance : Imbalance}
    (h : outline found = .error imbalance) :
    imbalance.token ∈ found ∧ imbalance.token.kind.isBracket = true := by
  have hblamed := Draft.outline_blamed? Draft.empty_isNested found
  rw [show Draft.empty.opened = [] from rfl, ← blamed?_brackets] at hblamed
  cases htoken : blamed? [] (found.filter (·.kind.isBracket)) with
  | none =>
    rw [htoken] at hblamed
    obtain ⟨items, hitems⟩ := hblamed
    cases h.symm.trans hitems
  | some token =>
    rw [htoken] at hblamed
    obtain ⟨cause, hwrong⟩ := hblamed
    obtain rfl : imbalance = ⟨cause, token⟩ := Except.error.inj (h.symm.trans hwrong)
    exact List.mem_filter.mp (mem_of_blamed? htoken)

/-! ## The front-end -/

/-- The tree of a script, from its bytes. -/
def parse (dialect : Dialect) (source : String) : Walk Node := do
  let reader := ByteReader.ofBytes dialect (Text.utf8 source)
  let found ← reader.tokenize
  (TokenReader.mk found reader.lineStarts source.toList).build

/-- The bytes of a script are read with the places at which its lines start. -/
theorem reads_utf8 (dialect : Dialect) (source : String) :
    (ByteReader.ofBytes dialect (Text.utf8 source)).Reads source.toList :=
  ⟨Text.utf8_eq_flatMap source, rfl⟩

/-- The tokens of a script are read with their lines and texts. -/
theorem reads_tokens {source : String} {found : List Token}
    (hfound : tokens dialect source.toList = .ok found) :
    (TokenReader.mk (found.map TokenSpan.of) (lineStartsOf (Text.utf8 source))
      source.toList).Reads found := by
  have hreader := reads_utf8 dialect source
  refine ⟨rfl, fun token htoken => ?_, fun token htoken => ?_⟩
  · obtain ⟨front, behind, hsource, hstart, hline, -⟩ := exists_place_of_token hfound htoken
    have hplace : (ByteReader.ofBytes dialect (Text.utf8 source)).At token.start
        (token.text ++ behind) := by
      refine ⟨bytesOf front, ?_, by rw [length_bytesOf, hstart]⟩
      rw [hreader.bytes, hsource, List.append_assoc, bytesOf, List.flatMap_append]
      rfl
    rw [← hline]
    exact hreader.lineAt hplace
  · obtain ⟨front, behind, hsource, hstart, -, -⟩ := exists_place_of_token hfound htoken
    rw [hsource, Token.stop, ← hstart, sliceBytes_middle]

/-- The lexer of scripts ends on every script: it finds the tokens, which lie apart, or rejects the
script on one of its lines. -/
theorem tokenize_ends (dialect : Dialect) (source : String) :
    (∃ found, tokens dialect source.toList = .ok found ∧
      (ByteReader.ofBytes dialect (Text.utf8 source)).tokenize = pure (found.map TokenSpan.of)) ∨
    ∃ line cause, tree dialect source.toList = .error (line, cause) ∧
      (ByteReader.ofBytes dialect (Text.utf8 source)).tokenize = throw (.rejected line cause) ∧
      1 ≤ line ∧ line ≤ Text.lineCount source.toList := by
  have hwalk := ByteReader.tokenize_traces (reads_utf8 dialect source)
  rw [show (ByteReader.ofBytes dialect (Text.utf8 source)).dialect = dialect from rfl] at hwalk
  cases hfound : tokens dialect source.toList with
  | ok found =>
    rw [hfound] at hwalk
    obtain ⟨spans, hspans, rfl⟩ := hwalk
    exact Or.inl ⟨found, rfl, hspans⟩
  | error ended =>
    rw [hfound] at hwalk
    have hline := (tokens_error hfound).lineOfEnd_le
    exact Or.inr ⟨_, _, by rw [tree, hfound], hwalk, hline⟩

/-- The builder of scripts ends on the tokens of every script: it finds the tree, or rejects the
script on one of its lines. -/
theorem build_ends {source : String} {found : List Token}
    (hfound : tokens dialect source.toList = .ok found) :
    let reader := TokenReader.mk (found.map TokenSpan.of) (lineStartsOf (Text.utf8 source))
      source.toList
    (∃ root, tree dialect source.toList = .ok root ∧ reader.build = pure root) ∨
    ∃ line cause, tree dialect source.toList = .error (line, cause) ∧
      reader.build = throw (.rejected line cause) ∧
      1 ≤ line ∧ line ≤ Text.lineCount source.toList := by
  intro reader
  have hbuild : reader.build = _ := (reads_tokens hfound).build
  rw [tree, hfound]
  cases houtline : outline found with
  | ok items =>
    rw [houtline] at hbuild
    exact Or.inl ⟨_, by simp only [houtline], hbuild⟩
  | error imbalance =>
    rw [houtline] at hbuild
    obtain ⟨hmem, hbracket⟩ := outline_error houtline
    obtain ⟨front, behind, -, -, hline, hstarts⟩ := exists_place_of_token hfound hmem
    have hsolid : imbalance.token.kind ≠ .newline := by
      intro hkind
      rw [hkind] at hbracket
      cases hbracket
    have hbounds := (hstarts hsolid).lineOfEnd_le
    rw [hline] at hbounds
    exact Or.inr ⟨_, _, by simp only [houtline], hbuild, hbounds⟩

/-- For every script and in either dialect, the lexer ends without a lookup beyond the end: it finds
the tokens of the script, which are not empty and lie apart in order, with blanks and comments
between them, or it rejects the script on one of its lines. So does the builder behind it: it finds
the tree of the script, or rejects the script on one of its lines. -/
theorem front_end_ends_in_range (dialect : Dialect) (source : String) :
    ((∃ found, tokens dialect source.toList = .ok found ∧
        (ByteReader.ofBytes dialect (Text.utf8 source)).tokenize =
          pure (found.map TokenSpan.of) ∧
        AreApart (dialect == .kotlin) source.toList (found.map TokenSpan.of)) ∨
      ∃ line cause, tree dialect source.toList = .error (line, cause) ∧
        (ByteReader.ofBytes dialect (Text.utf8 source)).tokenize = throw (.rejected line cause) ∧
        1 ≤ line ∧ line ≤ Text.lineCount source.toList) ∧
    ((∃ root, tree dialect source.toList = .ok root ∧ parse dialect source = pure root) ∨
      ∃ line cause, tree dialect source.toList = .error (line, cause) ∧
        parse dialect source = throw (.rejected line cause) ∧
        1 ≤ line ∧ line ≤ Text.lineCount source.toList) := by
  rcases tokenize_ends dialect source with
    ⟨found, hfound, hwalk⟩ | ⟨line, cause, htree, hwalk, hbounds⟩
  · have hparse : parse dialect source = (TokenReader.mk (found.map TokenSpan.of)
        (lineStartsOf (Text.utf8 source)) source.toList).build := by
      rw [parse, hwalk]
      rfl
    refine ⟨Or.inl ⟨found, hfound, hwalk, areApart_of_tokens hfound⟩, ?_⟩
    rw [hparse]
    rcases build_ends hfound with ⟨root, htree, hbuild⟩ | ⟨line, cause, htree, hbuild, hbounds⟩
    · exact Or.inl ⟨root, htree, hbuild⟩
    · exact Or.inr ⟨line, cause, htree, hbuild, hbounds⟩
  · have hparse : parse dialect source = throw (.rejected line cause) := by
      rw [parse, hwalk]
      rfl
    exact ⟨Or.inr ⟨line, cause, htree, hwalk, hbounds⟩,
      Or.inr ⟨line, cause, htree, hparse, hbounds⟩⟩

end CorpusFacts.Script
