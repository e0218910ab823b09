import CorpusFacts.Proofs.Text.Bytes
import CorpusFacts.Syntax.Token

/-!
# The pieces of a source

Cutting a source into pieces loses nothing: the pieces put together are the source, and each of them
is what is read next in front of those behind it. So pieces are known from their own texts, and the
tokens among them lie one behind the other.
-/

namespace CorpusFacts

/-- The text that some pieces make up. -/
def textOf (pieces : List Piece) : List Char :=
  pieces.flatMap (·.text)

@[simp] theorem textOf_nil : textOf [] = [] := rfl

@[simp] theorem textOf_cons (piece : Piece) (pieces : List Piece) :
    textOf (piece :: pieces) = piece.text ++ textOf pieces := rfl

@[simp] theorem textOf_append (first second : List Piece) :
    textOf (first ++ second) = textOf first ++ textOf second :=
  List.flatMap_append

/-- Each piece is what is read next of the text that the piece and those behind it make up, given
the kind of the token before. -/
inductive PieceRule.Reads (rule : PieceRule) : Option TokenKind → List Piece → Prop
  /-- Nothing is left to read. -/
  | nil {before : Option TokenKind} : rule.Reads before []
  /-- A piece is read, and then the pieces behind it. -/
  | cons {before : Option TokenKind} {kind : PieceKind} {c : Char} {body : List Char}
      {pieces : List Piece} :
      rule.next before c (body ++ textOf pieces) = .ok (kind, textOf pieces) →
      rule.Reads (kind.orBefore before) pieces →
      rule.Reads before (⟨kind, c :: body⟩ :: pieces)

/-- A text is cut into exactly those pieces that make it up and are read one after the other. -/
theorem PieceRule.piecesAfter_eq_ok_iff {rule : PieceRule} {before : Option TokenKind}
    {text : List Char} {pieces : List Piece} :
    rule.piecesAfter before text = .ok pieces ↔
      rule.Reads before pieces ∧ textOf pieces = text := by
  constructor
  · intro h
    fun_induction rule.piecesAfter before text generalizing pieces with
    | case1 before => cases h; exact ⟨.nil, rfl⟩
    | case2 => cases h
    | case3 => cases h
    | case4 before c text kind rest found _ later hlater ih =>
      cases h
      obtain ⟨hreads, htext⟩ := ih hlater
      have hsuffix : text.take (text.length - rest.length) ++ rest = text := by
        obtain ⟨body, rfl⟩ := rule.next_suffix found
        simp
      refine ⟨.cons ?_ hreads, ?_⟩
      · rw [htext, hsuffix, found]
      · rw [textOf_cons, htext, List.cons_append, hsuffix]
  · rintro ⟨hreads, rfl⟩
    induction hreads with
    | nil => rw [textOf_nil, piecesAfter]
    | @cons before kind c body pieces hnext _ ih =>
      rw [textOf_cons, List.cons_append, piecesAfter]
      split
      · rename_i hfound
        rw [hnext] at hfound
        cases hfound
      · rename_i hfound
        rw [hnext] at hfound
        cases hfound
        simp [ih]

namespace PieceRule.Reads

variable {rule : PieceRule}

/-- No piece is empty. -/
theorem text_ne_nil {before : Option TokenKind} {pieces : List Piece}
    (h : rule.Reads before pieces) : ∀ piece ∈ pieces, piece.text ≠ [] := by
  induction h with
  | nil => simp
  | cons _ _ ih =>
    intro piece hpiece
    rcases List.mem_cons.mp hpiece with rfl | hpiece
    · exact List.cons_ne_nil _ _
    · exact ih piece hpiece

/-- The pieces at the end are read one after the other, too. -/
theorem tail {before : Option TokenKind} {pre post : List Piece}
    (h : rule.Reads before (pre ++ post)) : ∃ before, rule.Reads before post := by
  induction pre generalizing before with
  | nil => exact ⟨before, h⟩
  | cons piece pre ih =>
    cases h with
    | cons _ hrest => exact ih hrest

/-- What is read of a text that starts with a character, and what is left of it then. -/
theorem next {before : Option TokenKind} {pieces : List Piece} {c : Char} {text : List Char}
    (h : rule.Reads before pieces) (htext : textOf pieces = c :: text) :
    ∃ kind later, rule.next before c text = .ok (kind, textOf later) ∧
      rule.Reads (kind.orBefore before) later := by
  cases h with
  | nil => cases htext
  | @cons _ kind d body later hnext hlater =>
    rw [textOf_cons, List.cons_append, List.cons.injEq] at htext
    obtain ⟨rfl, rfl⟩ := htext
    exact ⟨kind, later, hnext, hlater⟩

end PieceRule.Reads

/-- The tokens of two rows of pieces; the second row starts where the first one ends. -/
theorem tokensFrom_append (start line : Nat) (first second : List Piece) :
    tokensFrom start line (first ++ second) =
      tokensFrom start line first ++
        tokensFrom (start + Text.byteLength (textOf first)) (line + Text.newlines (textOf first))
          second := by
  induction first generalizing start line with
  | nil => simp [tokensFrom]
  | cons piece first ih =>
    simp only [List.cons_append, tokensFrom, ih, textOf_cons, Text.byteLength_append,
      Text.newlines_append, Nat.add_assoc]
    split <;> simp

/-- The token at a piece, at the place that the pieces before it lead to. -/
theorem mem_tokensFrom (start line : Nat) (before after : List Piece) (kind : TokenKind)
    (text : List Char) :
    ⟨kind, text, start + Text.byteLength (textOf before), line + Text.newlines (textOf before)⟩ ∈
      tokensFrom start line (before ++ ⟨.token kind, text⟩ :: after) := by
  rw [tokensFrom_append]
  exact List.mem_append_right _ (List.mem_cons_self ..)

/-- Every token is found at a piece, and the tokens before and behind it are those of the pieces
before and behind that one. -/
theorem tokensFrom_split {start line : Nat} {pieces : List Piece} {earlier later : List Token}
    {token : Token} (h : tokensFrom start line pieces = earlier ++ token :: later) :
    ∃ before after, pieces = before ++ ⟨.token token.kind, token.text⟩ :: after ∧
      tokensFrom start line before = earlier ∧
      token.start = start + Text.byteLength (textOf before) ∧
      token.line = line + Text.newlines (textOf before) ∧
      tokensFrom token.stop (token.line + Text.newlines token.text) after = later := by
  induction pieces generalizing start line earlier with
  | nil => simp [tokensFrom] at h
  | cons piece pieces ih =>
    obtain ⟨kind, text⟩ := piece
    cases kind with
    | token kind =>
      cases earlier with
      | nil =>
        simp only [tokensFrom, List.nil_append, List.cons.injEq] at h
        obtain ⟨rfl, rfl⟩ := h
        exact ⟨[], pieces, rfl, rfl, rfl, rfl, rfl⟩
      | cons first earlier =>
        simp only [tokensFrom, List.cons_append, List.cons.injEq] at h
        obtain ⟨rfl, hrest⟩ := h
        obtain ⟨before, after, rfl, rfl, hstart, hline, hlater⟩ := ih hrest
        refine ⟨⟨.token kind, text⟩ :: before, after, rfl, rfl, ?_, ?_, hlater⟩
        · simp only [hstart, textOf_cons, Text.byteLength_append, Nat.add_assoc]
        · simp only [hline, textOf_cons, Text.newlines_append, Nat.add_assoc]
    | _ =>
      simp only [tokensFrom] at h
      obtain ⟨before, after, rfl, rfl, hstart, hline, hlater⟩ := ih h
      refine ⟨⟨_, text⟩ :: before, after, rfl, rfl, ?_, ?_, hlater⟩
      · simp only [hstart, textOf_cons, Text.byteLength_append, Nat.add_assoc]
      · simp only [hline, textOf_cons, Text.newlines_append, Nat.add_assoc]

/-- Tokens lie in the bytes of their pieces. -/
theorem mem_tokensFrom_bounds {start line : Nat} {pieces : List Piece} {token : Token}
    (h : token ∈ tokensFrom start line pieces) :
    start ≤ token.start ∧ token.stop ≤ start + Text.byteLength (textOf pieces) := by
  obtain ⟨earlier, later, hsplit⟩ := List.append_of_mem h
  obtain ⟨before, after, rfl, _, hstart, _, _⟩ := tokensFrom_split hsplit
  have hstop : token.stop = token.start + Text.byteLength token.text := rfl
  simp only [textOf_append, textOf_cons, Text.byteLength_append]
  omega

/-- One token ends before the next one starts. -/
theorem tokensFrom_pairwise (start line : Nat) (pieces : List Piece) :
    (tokensFrom start line pieces).Pairwise fun first second => first.stop ≤ second.start := by
  induction pieces generalizing start line with
  | nil => exact List.Pairwise.nil
  | cons piece pieces ih =>
    simp only [tokensFrom]
    split
    · refine List.Pairwise.cons ?_ (ih _ _)
      intro later hlater
      exact (mem_tokensFrom_bounds hlater).1
    · exact ih _ _

/-- Where no piece is empty, no token is. -/
theorem start_lt_stop {start line : Nat} {pieces : List Piece} {token : Token}
    (hpieces : ∀ piece ∈ pieces, piece.text ≠ []) (h : token ∈ tokensFrom start line pieces) :
    token.start < token.stop := by
  obtain ⟨earlier, later, hsplit⟩ := List.append_of_mem h
  obtain ⟨before, after, rfl, _, _, _, _⟩ := tokensFrom_split hsplit
  have hpos : 0 < Text.byteLength token.text :=
    Text.byteLength_pos (hpieces ⟨.token token.kind, token.text⟩ (by simp))
  have hstop : token.stop = token.start + Text.byteLength token.text := rfl
  omega

/-! ## The pieces between two bytes

A range of bytes that starts and ends between two pieces holds a row of whole pieces. When every
piece is exchanged for another one, or left out, the same row is found between other bytes.
-/

/-- The pieces that lie between two bytes; the first piece starts at `byte`. -/
def piecesIn (start stop : Nat) : (byte : Nat) → List Piece → List Piece
  | _, [] => []
  | byte, piece :: pieces =>
    let later := piecesIn start stop (byte + Text.byteLength piece.text) pieces
    if start ≤ byte ∧ byte + Text.byteLength piece.text ≤ stop then piece :: later else later

variable {start stop byte : Nat} {pieces : List Piece}

/-- The pieces of two rows between two bytes; the second row starts where the first one ends. -/
theorem piecesIn_append (start stop byte : Nat) (first second : List Piece) :
    piecesIn start stop byte (first ++ second) = piecesIn start stop byte first ++
      piecesIn start stop (byte + Text.byteLength (textOf first)) second := by
  induction first generalizing byte with
  | nil => simp [piecesIn]
  | cons piece first ih =>
    simp only [List.cons_append, piecesIn, ih, textOf_cons, Text.byteLength_append, Nat.add_assoc]
    split <;> simp

/-- None is found of pieces that end before the range starts, or that start where it ends or behind,
nor in a range whose ends are in the wrong order. -/
theorem piecesIn_eq_nil (hproper : ∀ piece ∈ pieces, piece.text ≠ [])
    (h : byte + Text.byteLength (textOf pieces) ≤ start ∨ stop ≤ byte ∨ stop ≤ start) :
    piecesIn start stop byte pieces = [] := by
  induction pieces generalizing byte with
  | nil => rfl
  | cons piece pieces ih =>
    have hpos := Text.byteLength_pos (hproper piece (by simp))
    rw [textOf_cons, Text.byteLength_append] at h
    rw [piecesIn, if_neg (by omega)]
    exact ih (fun other hother => hproper other (by simp [hother])) (by omega)

/-- Pieces in the range are all found. -/
theorem piecesIn_within (hstart : start ≤ byte)
    (hstop : byte + Text.byteLength (textOf pieces) ≤ stop) :
    piecesIn start stop byte pieces = pieces := by
  induction pieces generalizing byte with
  | nil => rfl
  | cons piece pieces ih =>
    rw [textOf_cons, Text.byteLength_append] at hstop
    rw [piecesIn, if_pos (by omega), ih (by omega) (by omega)]

/-- The pieces between those before a range and those behind it. -/
theorem piecesIn_middle {first middle last : List Piece}
    (hproper : ∀ piece ∈ first ++ (middle ++ last), piece.text ≠ []) :
    piecesIn (Text.byteLength (textOf first)) (Text.byteLength (textOf (first ++ middle))) 0
      (first ++ (middle ++ last)) = middle := by
  have hlength : Text.byteLength (textOf (first ++ middle)) =
      Text.byteLength (textOf first) + Text.byteLength (textOf middle) := by
    rw [textOf_append, Text.byteLength_append]
  rw [piecesIn_append, piecesIn_append,
    piecesIn_eq_nil (fun piece hpiece => hproper piece (by simp [hpiece])) (by omega),
    piecesIn_within (by omega) (by omega),
    piecesIn_eq_nil (fun piece hpiece => hproper piece (by simp [hpiece])) (by omega)]
  simp

/-- No bytes lie between two bytes in the wrong order. -/
theorem sliceBytes_reversed {text : List Char} (h : stop ≤ start) :
    sliceBytes text start stop = [] := by
  rw [sliceBytes]
  split
  · rfl
  · have hsame : stop - start = 0 := by omega
    rw [hsame]
    cases dropBytes start text with
    | none => rfl
    | some rest => rw [Option.bind_some, takeBytes, Option.getD_some]

/-- The text between the ends of two rows at the start of some pieces, each exchanged for another
one or left out, is that of the pieces between them. -/
theorem sliceBytes_filterMap (exchange : Piece → Option Piece) {cut first second : List Piece}
    (hproper : ∀ piece ∈ cut, piece.text ≠ []) (hfirst : first <+: cut) (hsecond : second <+: cut) :
    sliceBytes (textOf (cut.filterMap exchange))
        (Text.byteLength (textOf (first.filterMap exchange)))
        (Text.byteLength (textOf (second.filterMap exchange))) =
      textOf ((piecesIn (Text.byteLength (textOf first)) (Text.byteLength (textOf second)) 0
        cut).filterMap exchange) := by
  rcases List.prefix_or_prefix_of_prefix hfirst hsecond with ⟨middle, rfl⟩ | ⟨middle, rfl⟩
  · obtain ⟨last, rfl⟩ := hsecond
    rw [List.append_assoc] at hproper ⊢
    rw [piecesIn_middle hproper]
    have hslice := sliceBytes_middle (textOf (first.filterMap exchange))
      (textOf (middle.filterMap exchange)) (textOf (last.filterMap exchange))
    simpa using hslice
  · rw [piecesIn_eq_nil hproper (by simp), sliceBytes_reversed (by simp)]
    rfl

end CorpusFacts
