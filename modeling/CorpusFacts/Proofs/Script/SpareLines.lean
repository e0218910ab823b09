import CorpusFacts.Proofs.Script.PieceEnds
import CorpusFacts.Proofs.Script.SecondBreak

/-!
# Spare lines

A blank line, or a line with nothing but a comment, is put in behind a line break of a script. The
script is still accepted. It says the same, unless the line break stands behind an operator and the
second line break splits the statement that goes on behind it.
-/

namespace CorpusFacts.Script

/-- The piece of a line break. -/
def lineBreak : Piece :=
  ⟨.token .newline, ['\n']⟩

/-- Whether a line, without the line break at its end, holds nothing but blanks and comments. -/
def SpareLine (dialect : Dialect) (line : List Char) : Prop :=
  ∃ gaps, (rule dialect).piecesAfter (some .newline) (line ++ ['\n']) = .ok (gaps ++ [lineBreak]) ∧
    ∀ gap ∈ gaps, ∀ kind, gap.kind ≠ .token kind

/-- A line break is read as such, whatever stands before and behind it. -/
theorem reads_lineBreak_iff {dialect : Dialect} {before : Option TokenKind} {text : List Char}
    {pieces : List Piece} :
    (rule dialect).Reads before (⟨.token .newline, text⟩ :: pieces) ↔
      text = ['\n'] ∧ (rule dialect).Reads (some .newline) pieces := by
  constructor
  · intro h
    cases h with
    | @cons _ _ c body _ hnext hrest =>
      have hcuts := nextPiece_cuts hnext
      generalize htext : body ++ textOf pieces = later at hcuts
      generalize textOf pieces = rest at hcuts htext
      cases hcuts with
      | newline hc =>
        obtain rfl : body = [] := by simpa using htext
        exact ⟨by rw [hc], hrest⟩
  · rintro ⟨rfl, hrest⟩
    have hcuts : Cuts dialect before '\n' ([] ++ textOf pieces) (.token .newline)
      (textOf pieces) := .newline rfl
    exact .cons hcuts.nextPiece hrest

/-- What is read at the end can be exchanged, if it starts with the same character and can be read
behind every token behind which the other could. -/
theorem reads_exchange {dialect : Dialect} {before : Option TokenKind}
    {pieces tail other : List Piece} (h : (rule dialect).Reads before (pieces ++ tail))
    (hhead : (textOf other).head? = (textOf tail).head?)
    (hother : ∀ before, (rule dialect).Reads before tail → (rule dialect).Reads before other) :
    (rule dialect).Reads before (pieces ++ other) := by
  induction pieces generalizing before with
  | nil => exact hother before h
  | cons piece pieces ih =>
    cases h with
    | @cons _ kind c body _ hnext hrest =>
      have hsame : (textOf (pieces ++ other)).head? = (textOf (pieces ++ tail)).head? := by
        rw [textOf_append, textOf_append, List.head?_append, List.head?_append, hhead]
      exact .cons (nextPiece_follows (Or.inl hsame) (fun _ => hsame) hnext) (ih hrest)

/-- A spare line can be read behind every line break. -/
theorem SpareLine.reads {dialect : Dialect} {line : List Char} (h : SpareLine dialect line) :
    ∃ gaps, textOf gaps = line ∧ (∀ gap ∈ gaps, ∀ kind, gap.kind ≠ .token kind) ∧
      ∀ {before : Option TokenKind} {pre post : List Piece},
        (rule dialect).Reads before (pre ++ lineBreak :: post) →
        (rule dialect).Reads before (pre ++ lineBreak :: (gaps ++ lineBreak :: post)) := by
  obtain ⟨gaps, hread, hgaps⟩ := h
  obtain ⟨hreads, htext⟩ := PieceRule.piecesAfter_eq_ok_iff.mp hread
  refine ⟨gaps, by simpa [lineBreak] using htext, hgaps, ?_⟩
  intro before pre post hall
  refine reads_exchange hall rfl fun before hbreak => ?_
  have hpost := (reads_lineBreak_iff.mp hbreak).2
  refine reads_lineBreak_iff.mpr ⟨rfl, reads_exchange hreads rfl fun _ _ => ?_⟩
  exact reads_lineBreak_iff.mpr ⟨rfl, hpost⟩

/-- Pieces that are no tokens only move the tokens of the pieces behind them. -/
theorem tokensFrom_spare {gaps : List Piece} (hgaps : ∀ gap ∈ gaps, ∀ kind, gap.kind ≠ .token kind)
    (start line : Nat) (pieces : List Piece) :
    tokensFrom start line (gaps ++ pieces) =
      tokensFrom (start + Text.byteLength (textOf gaps)) (line + Text.newlines (textOf gaps))
        pieces := by
  have hnone : tokensFrom start line gaps = [] := by
    rw [List.eq_nil_iff_forall_not_mem]
    intro token htoken
    obtain ⟨earlier, later, hsplit⟩ := List.append_of_mem htoken
    obtain ⟨before, after, rfl, _⟩ := tokensFrom_split hsplit
    exact hgaps ⟨.token token.kind, token.text⟩ (by simp) token.kind rfl
  rw [tokensFrom_append, hnone, List.nil_append]

/-- The tokens of a row of pieces are the same wherever the row starts, and touch alike. -/
theorem twins_moved {like : Token → Token → Prop}
    (hlike : ∀ token twin : Token, twin.kind = token.kind → twin.text = token.text → like token twin)
    {last otherLast : Option Token} {start otherStart : Nat} (line otherLine : Nat)
    (pieces : List Piece) (h : TouchesAlike last otherLast start otherStart) :
    Twins like last otherLast (tokensFrom start line pieces)
      (tokensFrom otherStart otherLine pieces) := by
  induction pieces generalizing last otherLast start otherStart line otherLine with
  | nil => exact .nil
  | cons piece pieces ih =>
    obtain ⟨kind, text⟩ := piece
    cases kind with
    | token kind => exact .cons (hlike _ _ rfl rfl) h.touchAlike (ih _ _ (.behind _ _))
    | _ => exact ih _ _ (h.further Iff.rfl)

/-- A first line that names no interpreter does not come to name one by what is put in behind a line
break. -/
theorem plain_of_lineBreak {text rest other : List Char}
    (hplain : ¬ ['#', '!'] <+: text ++ '\n' :: rest) : ¬ ['#', '!'] <+: text ++ '\n' :: other := by
  intro hnames
  match text with
  | [] => simp at hnames
  | [c] => simp at hnames
  | c :: d :: text =>
    refine hplain ?_
    simpa [List.cons_prefix_cons] using hnames

/-- A script can be read with a spare line behind a line break. -/
theorem SpareLine.readsScript {dialect : Dialect} {line : List Char}
    (hline : SpareLine dialect line) {pre post : List Piece}
    (h : ReadsScript dialect (pre ++ lineBreak :: post)) :
    ∃ gaps, textOf gaps = line ∧ (∀ gap ∈ gaps, ∀ kind, gap.kind ≠ .token kind) ∧
      ReadsScript dialect (pre ++ lineBreak :: (gaps ++ lineBreak :: post)) := by
  obtain ⟨gaps, htext, hgaps, hput⟩ := hline.reads
  refine ⟨gaps, htext, hgaps, ?_⟩
  generalize hcut : pre ++ lineBreak :: post = cut at h
  cases h with
  | plain hplain hreads =>
    subst hcut
    refine .plain ?_ (hput hreads)
    simp only [textOf_append, textOf_cons, lineBreak, List.singleton_append] at hplain ⊢
    exact plain_of_lineBreak hplain
  | interpreter hnames hnoBreak hend hreads =>
    cases pre with
    | nil => simp [lineBreak] at hcut
    | cons piece pre =>
      rw [List.cons_append, List.cons.injEq] at hcut
      obtain ⟨rfl, rfl⟩ := hcut
      refine .interpreter hnames hnoBreak ?_ (hput hreads)
      intro c hc
      refine hend c ?_
      cases hpre : textOf pre with
      | nil => simpa [hpre, lineBreak] using hc
      | cons d text => simpa [hpre] using hc

/-- A part of a text with as many bytes as another part at the start of the text is that part. -/
theorem append_eq_of_byteLength {first second early late : List Char}
    (htext : first ++ second = early ++ late)
    (hlength : Text.byteLength first = Text.byteLength early) : first = early ∧ second = late := by
  have htake := takeBytes_append first second
  rw [htext, hlength, takeBytes_append] at htake
  obtain rfl := Option.some.inj htake
  exact ⟨rfl, List.append_cancel_left htext⟩

/-- The tokens of a script with a spare line behind a line break. -/
theorem SpareLine.tokens {dialect : Dialect} {early late line : List Char}
    {before rest : List Token} {newline : Token} (hline : SpareLine dialect line)
    (htokens : tokens dialect (early ++ late) = .ok (before ++ newline :: rest))
    (hnewline : newline.kind = .newline) (hearly : Text.byteLength early = newline.stop) :
    ∃ extra others, extra.kind = .newline ∧
      Twins sameWord.like (some newline) (some extra) rest others ∧
      Script.tokens dialect (early ++ (line ++ '\n' :: late)) =
        .ok (before ++ newline :: extra :: others) := by
  obtain ⟨cut, hreads, htext, hcut⟩ := tokens_eq_ok_iff.mp htokens
  obtain ⟨pre, post, rfl, hbefore, hstart, hnumber, hrest⟩ := tokensFrom_split hcut
  rw [hnewline] at hreads
  obtain ⟨_, hbreak⟩ := hreads.tail (by simp)
  have hbreakText := (reads_lineBreak_iff.mp hbreak).1
  rw [hbreakText] at hreads
  obtain ⟨gaps, hgapText, hgaps, hread⟩ := hline.readsScript hreads
  have hstop : newline.stop = Text.byteLength (textOf pre ++ ['\n']) := by
    rw [Token.stop, hstart, hbreakText, Text.byteLength_append, Nat.zero_add]
  obtain ⟨rfl, rfl⟩ : textOf pre ++ ['\n'] = early ∧ textOf post = late := by
    refine append_eq_of_byteLength ?_ (by rw [hearly, hstop])
    rw [← htext, hnewline, hbreakText]
    simp
  have hsame : newline = ⟨.newline, ['\n'], 0 + Text.byteLength (textOf pre),
      1 + Text.newlines (textOf pre)⟩ := by
    rw [← hnewline, ← hbreakText, ← hstart, ← hnumber]
  let extra : Token := ⟨.newline, ['\n'], newline.stop + Text.byteLength (textOf gaps),
    newline.line + 1 + Text.newlines (textOf gaps)⟩
  have hnext : tokensFrom 0 1 (pre ++ lineBreak :: (gaps ++ lineBreak :: post)) =
      before ++ newline :: extra :: tokensFrom extra.stop (extra.line + 1) post := by
    rw [tokensFrom_append, hbefore]
    congr 1
    simp only [extra, hsame]
    simp only [tokensFrom, lineBreak]
    rw [tokensFrom_spare hgaps]
    rfl
  refine ⟨extra, tokensFrom extra.stop (extra.line + 1) post, rfl, ?_, ?_⟩
  · rw [← hrest]
    exact twins_moved (fun _ _ hkind htext => ⟨hkind, htext⟩) _ _ _ (.behind _ _)
  · refine tokens_eq_ok_iff.mpr ⟨_, hread, ?_, hnext⟩
    simp [hgapText, lineBreak]

/-- A spare line behind a line break of a script leaves the script accepted, and leaves what it says
unless a statement is split. -/
theorem spare_line_keeps_skeleton_iff {dialect : Dialect} {early late line : List Char}
    {root : Node} {before rest : List Token} {newline : Token}
    (htree : tree dialect (early ++ late) = .ok root)
    (htokens : tokens dialect (early ++ late) = .ok (before ++ newline :: rest))
    (hnewline : newline.kind = .newline) (hearly : Text.byteLength early = newline.stop)
    (hline : SpareLine dialect line) :
    ∃ otherRoot others, tree dialect (early ++ (line ++ '\n' :: late)) = .ok otherRoot ∧
      tokens dialect (early ++ (line ++ '\n' :: late)) = .ok others ∧
      (skeleton otherRoot others = skeleton root (before ++ newline :: rest) ↔
        splitsAt before rest = false) := by
  obtain ⟨found, items, hfound, hitems, rfl⟩ := tree_eq_ok_iff.mp htree
  obtain rfl := Except.ok.inj (hfound.symm.trans htokens)
  obtain ⟨extra, others, hextra, htwins, hothers⟩ := hline.tokens htokens hnewline hearly
  obtain ⟨otherItems, hotherItems, hresult⟩ :=
    outline_newline_newline hnewline hextra htwins hitems
  refine ⟨_, _, tree_eq_ok_iff.mpr ⟨_, _, hothers, hotherItems, rfl⟩, hothers, ?_⟩
  rw [skeleton_eq (tokens_ordered htokens) hitems, skeleton_eq (tokens_ordered hothers) hotherItems]
  cases hsplits : splitsAt before rest with
  | false =>
    rw [hsplits, if_neg (by simp)] at hresult
    rw [hresult.entriesOf_eq]
    simp
  | true =>
    rw [hsplits, if_pos rfl] at hresult
    simp only [Bool.true_eq_false, iff_false, List.cons.injEq, true_and]
    intro hsame
    have hlength := congrArg List.length hsame
    rw [entriesOf_length, entriesOf_length] at hlength
    omega

/-- A comment on a line of its own in a block leaves what the block says. -/
theorem spare_comment_in_block :
    ∃ root otherRoot found others,
      tree .kotlin ("a \x7b\n".toList ++ "b\n\x7d".toList) = .ok root ∧
      tokens .kotlin ("a \x7b\n".toList ++ "b\n\x7d".toList) = .ok found ∧
      tree .kotlin ("a \x7b\n".toList ++ (" // c".toList ++ '\n' :: "b\n\x7d".toList)) =
        .ok otherRoot ∧
      tokens .kotlin ("a \x7b\n".toList ++ (" // c".toList ++ '\n' :: "b\n\x7d".toList)) =
        .ok others ∧
      skeleton otherRoot others = skeleton root found := by
  have htokens : tokens .kotlin ("a \x7b\n".toList ++ "b\n\x7d".toList) = .ok
      ([⟨.word, ['a'], 0, 1⟩, ⟨.opening .curly, ['\x7b'], 2, 1⟩] ++ ⟨.newline, ['\n'], 3, 1⟩ ::
        [⟨.word, ['b'], 4, 2⟩, ⟨.newline, ['\n'], 5, 2⟩, ⟨.closing .curly, ['\x7d'], 6, 3⟩]) := by
    decide +kernel
  have hline : SpareLine .kotlin " // c".toList :=
    ⟨[⟨.blank, [' ']⟩, ⟨.lineComment, "// c".toList⟩], by decide +kernel, by simp⟩
  have htree := tree_eq_ok_iff.mpr ⟨_, _, htokens, rfl, rfl⟩
  obtain ⟨otherRoot, others, hother, hothers, hsame⟩ :=
    spare_line_keeps_skeleton_iff htree htokens rfl (by decide) hline
  exact ⟨_, otherRoot, _, others, htree, htokens, hother, hothers, hsame.mpr (by decide)⟩

/-- A blank line does split a statement: behind a comma, before another argument. -/
theorem blank_line_splits_include :
    ¬ ∀ (dialect : Dialect) (early late line : List Char) (root : Node) (before rest : List Token)
      (newline : Token), tree dialect (early ++ late) = .ok root →
      tokens dialect (early ++ late) = .ok (before ++ newline :: rest) →
      newline.kind = .newline → Text.byteLength early = newline.stop → SpareLine dialect line →
      ∃ otherRoot others, tree dialect (early ++ (line ++ '\n' :: late)) = .ok otherRoot ∧
        tokens dialect (early ++ (line ++ '\n' :: late)) = .ok others ∧
        skeleton otherRoot others = skeleton root (before ++ newline :: rest) := by
  intro hall
  have htokens : tokens .groovy ("include ':a',\n".toList ++ "':b'\n".toList) = .ok
      ([⟨.word, "include".toList, 0, 1⟩, ⟨.string, "':a'".toList, 8, 1⟩,
        ⟨.punct ',', [','], 12, 1⟩] ++ ⟨.newline, ['\n'], 13, 1⟩ ::
        [⟨.string, "':b'".toList, 14, 2⟩, ⟨.newline, ['\n'], 18, 2⟩]) := by
    decide +kernel
  have hothers : tokens .groovy ("include ':a',\n".toList ++ ([] ++ '\n' :: "':b'\n".toList)) = .ok
      [⟨.word, "include".toList, 0, 1⟩, ⟨.string, "':a'".toList, 8, 1⟩, ⟨.punct ',', [','], 12, 1⟩,
        ⟨.newline, ['\n'], 13, 1⟩, ⟨.newline, ['\n'], 14, 2⟩, ⟨.string, "':b'".toList, 15, 3⟩,
        ⟨.newline, ['\n'], 19, 3⟩] := by
    decide +kernel
  have htree := tree_eq_ok_iff.mpr ⟨_, _, htokens, rfl, rfl⟩
  have hother := tree_eq_ok_iff.mpr ⟨_, _, hothers, rfl, rfl⟩
  have hline : SpareLine .groovy [] := ⟨[], by decide +kernel, by simp⟩
  obtain ⟨otherRoot, others, hsecond, hfound, hsame⟩ :=
    hall _ _ _ _ _ _ _ _ htree htokens rfl (by decide) hline
  obtain rfl := Except.ok.inj (hother.symm.trans hsecond)
  obtain rfl := Except.ok.inj (hothers.symm.trans hfound)
  revert hsame
  decide

end CorpusFacts.Script
