import CorpusFacts.Proofs.Script.Correspondence
import CorpusFacts.Proofs.Script.Exchange
import CorpusFacts.Proofs.Script.LiteralBodies
import CorpusFacts.Proofs.Script.SpareLines
import Mathlib.Data.List.Pairwise

/-!
# Hiding a comment or the body of a literal

A comment is exchanged for a blank, or for nothing where it ends with its line, and the body of a
literal for a single letter. The scan comes out of both at the same place, so all other pieces are
read as before. The tree keeps its frame.
-/

/-! ## The frame of a tree

The frame of a tree says how its nodes nest, of which kinds and roles they are, and which of the
tokens of the script lie in each of them; it says nothing of bytes, lines and characters. Scripts
whose tokens correspond one by one have the same frame. -/

namespace CorpusFacts.Script

/-- All nodes of a tree, parents first, with their depths, kinds and roles, and for each token in
order whether it lies in the node. -/
def frame (root : Node) (row : List Token) : List (Nat × NodeKind × Option Role × List Bool) :=
  root.preorder.map fun place =>
    (place.1, place.2.kind, place.2.role, row.map place.2.covers)

/-- Corresponding rows are equally long. -/
theorem Twins.length_eq {like : Token → Token → Prop} {last otherLast : Option Token}
    {row other : List Token} (h : Twins like last otherLast row other) :
    row.length = other.length := by
  induction h with
  | nil => rfl
  | cons _ _ _ ih => rw [List.length_cons, List.length_cons, ih]

/-- Tokens of corresponding rows correspond at the same place in their rows. -/
theorem Twins.zipped {like : Token → Token → Prop} {last otherLast : Option Token}
    {row other : List Token} (h : Twins like last otherLast row other)
    {pairs : List (Token × Token)}
    (hpairs : row.zip other ⊆ pairs) :
    Twins (fun token twin => like token twin ∧ (token, twin) ∈ pairs) last otherLast row other := by
  induction h with
  | nil => exact .nil
  | cons hlike htouch _ ih =>
    rw [List.zip_cons_cons, List.cons_subset] at hpairs
    exact .cons ⟨hlike, hpairs.1⟩ htouch (ih hpairs.2)

/-- A correspondence between the tokens at the same places of two rows. -/
def Correspondence.zipped (pairing : Correspondence) (pairs : List (Token × Token)) :
    Correspondence where
  like token twin := pairing.like token twin ∧ (token, twin) ∈ pairs
  kind_eq token twin h := pairing.kind_eq token twin h.1
  word_eq token twin h := pairing.word_eq token twin h.1

/-- Two pairs of tokens lie alike in their rows: they start in the same order and end in the same
order. -/
structure InOrder (first second : Token × Token) : Prop where
  /-- The first token starts first in both rows or in neither. -/
  start : first.1.start ≤ second.1.start ↔ first.2.start ≤ second.2.start
  /-- The first token ends first in both rows or in neither. -/
  stop : first.1.stop ≤ second.1.stop ↔ first.2.stop ≤ second.2.stop
  /-- The second token starts first in both rows or in neither. -/
  start_symm : second.1.start ≤ first.1.start ↔ second.2.start ≤ first.2.start
  /-- The second token ends first in both rows or in neither. -/
  stop_symm : second.1.stop ≤ first.1.stop ↔ second.2.stop ≤ first.2.stop

instance : Std.Symm InOrder :=
  ⟨fun _ _ h => ⟨h.start_symm, h.stop_symm, h.start, h.stop⟩⟩

/-- Tokens at the same places of two rows lie alike in them. -/
theorem inOrder_of_mem_zip {row other : List Token} (hrow : Ordered row) (hother : Ordered other) :
    ∀ first ∈ row.zip other, ∀ second ∈ row.zip other, InOrder first second := by
  have hproper : ∀ pair ∈ row.zip other, pair.1.start < pair.1.stop ∧ pair.2.start < pair.2.stop :=
    fun pair hpair => ⟨hrow.proper _ (List.of_mem_zip hpair).1,
      hother.proper _ (List.of_mem_zip hpair).2⟩
  have hpairs : (row.zip other).Pairwise InOrder := by
    induction row generalizing other with
    | nil => exact .nil
    | cons token row ih =>
      cases other with
      | nil => exact .nil
      | cons twin other =>
        rw [List.zip_cons_cons] at hproper ⊢
        refine .cons (fun pair hpair => ?_) (ih hrow.tail hother.tail fun pair hpair =>
          hproper pair (List.mem_cons_of_mem _ hpair))
        have hfirst := hproper _ (List.mem_cons_self ..)
        have hsecond := hproper pair (List.mem_cons_of_mem _ hpair)
        have hapart := List.rel_of_pairwise_cons hrow.apart (List.of_mem_zip hpair).1
        have hotherApart := List.rel_of_pairwise_cons hother.apart (List.of_mem_zip hpair).2
        simp only at hfirst
        constructor <;> constructor <;> intro _ <;> simp only at * <;> omega
  have hself : ∀ pair ∈ row.zip other, InOrder pair pair :=
    fun _ _ => ⟨by simp, by simp, by simp, by simp⟩
  exact fun first hfirst second hsecond => hpairs.forall_of_forall hself hfirst hsecond

namespace Correspondence

variable {pairing : Correspondence} {row other : List Token}

/-- Nodes that start and end with tokens at the same places of two rows cover the tokens at the same
places. -/
theorem SameSpan.covers_eq {node twin : Node} (hrow : Ordered row) (hother : Ordered other)
    (hlength : row.length = other.length)
    (h : (pairing.zipped (row.zip other)).SameSpan node twin) :
    other.map twin.covers = row.map node.covers := by
  obtain ⟨first, otherFirst, ⟨_, hfirst⟩, _, hstart, hotherStart, _⟩ := h.starts
  obtain ⟨last, otherLast, ⟨_, hlast⟩, hstop, hotherStop⟩ := h.stops
  have hinOrder := inOrder_of_mem_zip hrow hother
  calc other.map twin.covers
      = (row.zip other).map fun pair => twin.covers pair.2 := by
        conv_lhs => rw [← List.map_snd_zip hlength.ge, List.map_map]
        rfl
    _ = (row.zip other).map fun pair => node.covers pair.1 := by
        refine List.map_congr_left fun pair hpair => ?_
        rw [Bool.eq_iff_iff, Node.covers_iff, Node.covers_iff, hstart, hotherStart, hstop,
          hotherStop]
        exact and_congr (hinOrder _ hfirst pair hpair).start.symm
          (hinOrder pair hpair _ hlast).stop.symm
    _ = row.map node.covers := by
        conv_rhs => rw [← List.map_fst_zip hlength.le, List.map_map]
        rfl

/-- Scripts whose tokens correspond one by one have the same frame. -/
theorem frame_eq {last otherLast : Option Token} {items : List Item} {stop otherStop : Nat}
    (htwins : Twins pairing.like last otherLast row other) (hrow : Ordered row)
    (hother : Ordered other) (hstop : ∀ token ∈ row, token.stop ≤ stop)
    (hotherStop : ∀ token ∈ other, token.stop ≤ otherStop)
    (hitems : Script.outline row = .ok items) :
    ∃ otherItems, Script.outline other = .ok otherItems ∧
      frame (.mk .script none 0 otherStop 1 (nodesOf otherItems)) other =
        frame (.mk .script none 0 stop 1 (nodesOf items)) row := by
  have hzipped : Twins (pairing.zipped (row.zip other)).like last otherLast row other :=
    htwins.zipped (List.Subset.refl _)
  obtain ⟨otherItems, hotherItems, halike⟩ := Correspondence.outline hzipped hitems
  refine ⟨otherItems, hotherItems, ?_⟩
  have hroot {row : List Token} {stop line : Nat} {nodes : List Node}
      (hstop : ∀ token ∈ row, token.stop ≤ stop) :
      row.map (Node.mk .script none 0 stop line nodes).covers = row.map fun _ => true :=
    List.map_congr_left fun token htoken =>
      Node.covers_iff.mpr ⟨Nat.zero_le _, hstop token htoken⟩
  have hbelow := halike.nodes.preorder 1
  rw [frame, frame, Node.preorder, Node.preorder, Node.preorderFrom, Node.preorderFrom,
    List.map_cons, List.map_cons, hroot hstop, hroot hotherStop]
  congr 1
  · simp [Node.kind, Node.role, htwins.length_eq]
  · generalize Node.preorderAll _ (nodesOf items) = places at hbelow
    generalize Node.preorderAll _ (nodesOf otherItems) = others at hbelow
    induction hbelow with
    | nil => rfl
    | cons hplace _ ih =>
      rw [List.map_cons, List.map_cons, ih, hplace.1, hplace.2.kind, hplace.2.role,
        hplace.2.covers_eq hrow hother htwins.length_eq]

end Correspondence

end CorpusFacts.Script

/-! ## What is hidden -/

namespace CorpusFacts

/-- What takes the place of a piece: a blank that of a comment between delimiters, nothing that of a
comment up to the end of its line, and a single letter that of the body of a literal. -/
def Piece.hidden : Piece → List Piece
  | ⟨.blockComment, _⟩ => [⟨.blank, [' ']⟩]
  | ⟨.lineComment, _⟩ => []
  | ⟨.token .string, text⟩ => [⟨.token .string, Script.withLetter text⟩]
  | piece => [piece]

namespace Script

variable {dialect : Dialect} {before : Option TokenKind} {piece : Piece} {post : List Piece}

/-- What starts with a comment. -/
theorem slash_of_blockComment {text : List Char}
    (h : (rule dialect).Reads before (⟨.blockComment, text⟩ :: post)) :
    (textOf (⟨.blockComment, text⟩ :: post)).head? = some '/' := by
  cases h with
  | @cons _ _ c body _ hnext _ =>
    have hcuts := nextPiece_cuts hnext
    generalize textOf post = rest at hcuts
    generalize body ++ rest = text at hcuts
    cases hcuts with
    | blockComment hc => rw [hc]; rfl

/-- A literal starts with a quote or a slash, has its body between two delimiters, and can be read
with a letter in place of the body. -/
theorem reads_withLetter {text : List Char}
    (h : (rule dialect).Reads before (⟨.token .string, text⟩ :: post)) :
    (∃ inside, text = delimiter text ++ (inside ++ delimiter text)) ∧
      (withLetter text).head? = text.head? ∧ (∀ c ∈ text.head?, c = '"' ∨ c = '\'' ∨ c = '/') ∧
      (rule dialect).Reads before (⟨.token .string, withLetter text⟩ :: post) := by
  cases h with
  | @cons _ _ c body _ hnext hreads =>
    have hcuts := nextPiece_cuts hnext
    generalize hrest : textOf post = rest at hcuts
    generalize htext : body ++ rest = later at hcuts
    cases hcuts with
    | slashy hc hdialect hbefore hline hblock hslashy =>
      subst hc
      rw [← htext] at hline hslashy
      obtain ⟨hdelimiter, ⟨inside, hinside⟩, hletter⟩ := slashy_body hline hslashy
      have hwith : withLetter ('/' :: body) = ['/', 'x', '/'] := by
        rw [withLetter, hdelimiter]
        rfl
      refine ⟨⟨inside, by rw [hdelimiter, hinside]; rfl⟩, by rw [hwith]; rfl, by simp, ?_⟩
      rw [← hrest] at hletter
      have hcut : Cuts dialect before '/' (['x', '/'] ++ textOf post) (.token .string)
        (textOf post) := .slashy rfl hdialect hbefore (by simp) (by simp) hletter
      rw [hwith]
      exact .cons hcut.nextPiece hreads
    | string hc hstring =>
      rw [← htext] at hstring
      obtain ⟨hinside, letter, hwith, hletter⟩ := string_body hc hstring
      refine ⟨hinside, by rw [hwith]; rfl, ?_, ?_⟩
      · rintro _ ⟨⟩
        rcases hc with rfl | rfl <;> simp
      · rw [← hrest] at hletter
        have hcut : Cuts dialect before c (letter ++ textOf post) (.token .string) (textOf post) :=
          .string hc hletter
        rw [hwith]
        exact .cons hcut.nextPiece hreads

/-- Comments and literals: the pieces that something else can take the place of. -/
def PieceKind.isHideable (kind : PieceKind) : Bool :=
  kind.isComment || kind == .token .string

/-- A comment or literal is not the line that names an interpreter. -/
theorem ne_interpreter_of_isHideable (h : PieceKind.isHideable piece.kind = true) :
    piece.kind ≠ .interpreter := by
  intro hinterpreter
  simp [hinterpreter, PieceKind.isHideable, PieceKind.isComment] at h

/-- A piece that is neither a comment nor a literal stays. -/
theorem hidden_of_not_isHideable (h : PieceKind.isHideable piece.kind = false) :
    piece.hidden = [piece] := by
  obtain ⟨kind, text⟩ := piece
  match kind with
  | .interpreter | .blank => rfl
  | .lineComment | .blockComment => simp [PieceKind.isHideable, PieceKind.isComment] at h
  | .token kind =>
    cases kind with
    | string => simp [PieceKind.isHideable] at h
    | _ => rfl

/-- What takes the place of a comment or literal may follow where that did, and can be read there.
-/
structure Replaces (dialect : Dialect) (old new : List Piece) : Prop where
  /-- It may follow where the other could. -/
  follows : Follows (textOf old) (textOf new)
  /-- It ends a line where the other did. -/
  ends : LineEnds (textOf old) → LineEnds (textOf new)
  /-- It names no interpreter. -/
  plain : ¬ ['#', '!'] <+: textOf new
  /-- It can be read where the other could. -/
  reads : ∀ before, (rule dialect).Reads before old → (rule dialect).Reads before new

theorem replaces_hidden (h : (rule dialect).Reads before (piece :: post))
    (hkind : PieceKind.isHideable piece.kind = true) :
    Replaces dialect (piece :: post) (piece.hidden ++ post) := by
  obtain ⟨kind, text⟩ := piece
  match kind with
  | .interpreter | .blank => simp [PieceKind.isHideable, PieceKind.isComment] at hkind
  | .blockComment =>
    have hhead := slash_of_blockComment h
    refine ⟨Or.inr (Or.inr (Or.inl rfl)), fun hends => ?_, by simp [Piece.hidden], ?_⟩
    · exact absurd (hends '/' hhead) (by decide)
    · intro before hread
      have hblank : Cuts dialect before ' ' ([] ++ textOf post) .blank (textOf post) := .blank rfl
      cases hread with
      | cons _ hreads => exact .cons hblank.nextPiece hreads
  | .lineComment =>
    have hends : LineEnds (textOf post) := by
      cases h with
      | cons hnext _ => exact lineEnds_of_lineComment hnext
    refine ⟨?_, fun _ => hends, ?_, ?_⟩
    · cases hhead : (textOf post).head? with
      | none => exact Or.inr (Or.inl hhead)
      | some d => exact Or.inr (Or.inr (Or.inr (hhead.trans (congrArg some (hends d hhead)))))
    · rintro ⟨rest, hrest⟩
      exact absurd (hends '#' (by simp [Piece.hidden] at hrest; rw [← hrest]; rfl)) (by decide)
    · intro before hread
      cases hread with
      | cons _ hreads => exact hreads
  | .token .string =>
    obtain ⟨-, hsame, hquote, -⟩ := reads_withLetter h
    have hproper : text ≠ [] := h.text_ne_nil ⟨.token .string, text⟩ (by simp)
    obtain ⟨c, body, rfl⟩ := List.exists_cons_of_ne_nil hproper
    obtain ⟨letter, hletter⟩ := List.head?_eq_some_iff.mp (hsame.trans rfl)
    have hnew : textOf (Piece.hidden ⟨.token .string, c :: body⟩ ++ post) =
        c :: (letter ++ textOf post) := by
      rw [Piece.hidden, hletter]
      rfl
    refine ⟨?_, ?_, ?_, fun before hread => (reads_withLetter hread).2.2.2⟩
    · rw [hnew]
      exact Or.inl rfl
    · rw [hnew]
      exact fun hends => hends
    · rw [hnew, List.cons_prefix_cons]
      rintro ⟨rfl, -⟩
      exact absurd (hquote '#' rfl) (by decide)
  | .token (.word) | .token (.punct _) | .token (.opening _) | .token (.closing _)
  | .token .newline | .token .semicolon => simp [PieceKind.isHideable, PieceKind.isComment] at hkind

/-- A script can be read with something else in place of a comment or literal. -/
theorem ReadsScript.hidden {pre : List Piece} (h : ReadsScript dialect (pre ++ piece :: post))
    (hkind : PieceKind.isHideable piece.kind = true) :
    ReadsScript dialect (pre ++ (piece.hidden ++ post)) := by
  have hproper := ne_interpreter_of_isHideable hkind
  obtain ⟨before, hreads⟩ := h.tail hproper
  have hreplaces := replaces_hidden hreads hkind
  exact h.follows (by simpa using hproper) hreplaces.follows hreplaces.ends hreplaces.plain
    hreplaces.reads

/-- Tokens of one kind correspond; only literals may have other characters. -/
def exceptLiterals : Correspondence where
  like token twin := twin.kind = token.kind ∧ (token.kind ≠ .string → twin.text = token.text)
  kind_eq _ _ h := h.1
  word_eq _ _ h hword := h.2 (by simp [hword])

/-- The tokens of a row of pieces are the same wherever the row starts. -/
theorem twins_exceptLiterals {last otherLast : Option Token} {start otherStart : Nat}
    (line otherLine : Nat) (pieces : List Piece)
    (h : TouchesAlike last otherLast start otherStart) :
    Twins exceptLiterals.like last otherLast (tokensFrom start line pieces)
      (tokensFrom otherStart otherLine pieces) := by
  exact twins_moved (fun _ _ hkind htext => ⟨hkind, fun _ => htext⟩) line otherLine pieces h

/-- Corresponding rows one behind the other. -/
theorem Twins.append {like : Token → Token → Prop} {last otherLast : Option Token}
    {row other later otherLater : List Token} (h : Twins like last otherLast row other)
    (hlater : Twins like (row.getLast?.or last) (other.getLast?.or otherLast) later otherLater) :
    Twins like last otherLast (row ++ later) (other ++ otherLater) := by
  induction h with
  | nil => exact hlater
  | @cons last otherLast token twin row other hlike htouch _ ih =>
    refine .cons hlike htouch (ih ?_)
    cases row <;> cases other <;> simp_all [List.getLast?_cons]

/-- The tokens of a script correspond to those with something else in place of a comment or literal.
-/
theorem twins_hidden (pre : List Piece) (hproper : piece.text ≠ [])
    (hreads : (rule dialect).Reads before (piece :: post))
    (hkind : PieceKind.isHideable piece.kind = true) :
    Twins exceptLiterals.like none none (tokensFrom 0 1 (pre ++ piece :: post))
      (tokensFrom 0 1 (pre ++ (piece.hidden ++ post))) := by
  rw [tokensFrom_append, tokensFrom_append]
  have hbefore : Twins exceptLiterals.like none none (tokensFrom 0 1 pre) (tokensFrom 0 1 pre) :=
    twins_exceptLiterals 1 1 pre ⟨by simp, by simp, by simp⟩
  refine hbefore.append ?_
  have htouches : TouchesAlike ((tokensFrom 0 1 pre).getLast?.or none)
      ((tokensFrom 0 1 pre).getLast?.or none) (0 + Text.byteLength (textOf pre))
      (0 + Text.byteLength (textOf pre)) := by
    refine .same fun token htoken => ?_
    have hmem : token ∈ tokensFrom 0 1 pre := List.mem_of_getLast? (by simpa using htoken)
    exact (mem_tokensFrom_bounds hmem).2
  generalize (tokensFrom 0 1 pre).getLast?.or none = last at htouches
  generalize 0 + Text.byteLength (textOf pre) = start at htouches
  generalize 1 + Text.newlines (textOf pre) = line
  obtain ⟨kind, text⟩ := piece
  match kind with
  | .interpreter | .blank => simp [PieceKind.isHideable, PieceKind.isComment] at hkind
  | .blockComment =>
    have hpos : 0 < Text.byteLength text := Text.byteLength_pos hproper
    have hblank : 0 < Text.byteLength [' '] := Text.byteLength_pos (by simp)
    have hgaps : Text.byteLength text = 0 ↔ Text.byteLength [' '] = 0 := by omega
    exact twins_exceptLiterals _ _ post (htouches.further hgaps)
  | .lineComment =>
    cases hreads with
    | @cons _ _ c body _ hnext hpost =>
      have hends := lineEnds_of_lineComment hnext
      cases hpost with
      | nil => exact .nil
      | @cons _ kind d later post hbreak _ =>
        obtain rfl : d = '\n' := hends d rfl
        simp only [rule] at hbreak
        obtain rfl := kind_of_break hbreak
        refine .cons ⟨rfl, fun _ => rfl⟩ ?_ (twins_exceptLiterals _ _ post (.behind _ _))
        intro mark hmark
        cases hmark
  | .token .string =>
    refine .cons ⟨rfl, fun h => (h rfl).elim⟩ ?_ (twins_exceptLiterals _ _ post (.behind _ _))
    intro mark hmark
    cases hmark
  | .token (.word) | .token (.punct _) | .token (.opening _) | .token (.closing _)
  | .token .newline | .token .semicolon => simp [PieceKind.isHideable, PieceKind.isComment] at hkind

/-- A comment, or the body of a literal, matters to nothing else of a script. With a blank in place
of a comment between delimiters, nothing in place of a comment up to the end of its line, or a single
letter in place of what is between the delimiters of a literal, the script is cut into the same
pieces but for this one, is accepted still, and its tree has the same frame. -/
theorem hidden_keeps_frame {source : List Char} {pre : List Piece} {root : Node}
    {found : List Token} (hcut : pieces dialect source = .ok (pre ++ piece :: post))
    (htokens : tokens dialect source = .ok found) (htree : tree dialect source = .ok root) :
    (piece.kind = .token .string → ∃ inside,
        piece.text = delimiter piece.text ++ (inside ++ delimiter piece.text)) ∧
      ∃ otherRoot others, let cut := pre ++ (piece.hidden ++ post)
        pieces dialect (textOf cut) = .ok cut ∧ tokens dialect (textOf cut) = .ok others ∧
          tree dialect (textOf cut) = .ok otherRoot ∧ frame otherRoot others = frame root found := by
  obtain ⟨hreads, rfl⟩ := pieces_eq_ok_iff.mp hcut
  cases hkind : PieceKind.isHideable piece.kind with
  | false =>
    rw [hidden_of_not_isHideable hkind]
    refine ⟨?_, root, found, hcut, htokens, htree, rfl⟩
    rintro hstring
    simp [hstring, PieceKind.isHideable] at hkind
  | true =>
    obtain ⟨before, hpiece⟩ := hreads.tail (ne_interpreter_of_isHideable hkind)
    refine ⟨?_, ?_⟩
    · rintro hstring
      obtain ⟨kind, text⟩ := piece
      obtain rfl : kind = .token .string := hstring
      exact (reads_withLetter hpiece).1
    · obtain ⟨_, items, hfound, hitems, rfl⟩ := tree_eq_ok_iff.mp htree
      obtain rfl := Except.ok.inj (hfound.symm.trans htokens)
      obtain rfl := Except.ok.inj (htokens.symm.trans
        (tokens_eq_ok_iff.mpr ⟨_, hreads, rfl, rfl⟩))
      have hhidden := hreads.hidden hkind
      have hothers := tokens_eq_ok_iff.mpr ⟨_, hhidden, rfl, rfl⟩
      have htwins := twins_hidden pre (hreads.text_ne_nil piece (by simp)) hpiece hkind
      obtain ⟨otherItems, hotherItems, hframe⟩ := Correspondence.frame_eq htwins
        (tokens_ordered htokens) (tokens_ordered hothers)
        (fun token htoken => (mem_tokensFrom_bounds htoken).2)
        (fun token htoken => (mem_tokensFrom_bounds htoken).2) hitems
      rw [Nat.zero_add, Nat.zero_add] at hframe
      exact ⟨_, _, pieces_eq_ok_iff.mpr ⟨hhidden, rfl⟩, hothers,
        tree_eq_ok_iff.mpr ⟨_, _, hothers, hotherItems, rfl⟩, hframe⟩

/-- A template with a brace in a literal of its own is hidden, and the slash behind the literal still
divides. -/
theorem hidden_template :
    ∃ root found otherRoot others, let source := "f(\"a$\x7b'\x7d'\x7d\" / 2)".toList
      let hidden := "f(\"x\" / 2)".toList
      tree .groovy source = .ok root ∧ tokens .groovy source = .ok found ∧
        tree .groovy hidden = .ok otherRoot ∧ tokens .groovy hidden = .ok others ∧
          frame otherRoot others = frame root found ∧
            frame root found = [(0, .script, none, List.replicate 6 true),
              (1, .statement, none, List.replicate 6 true)] := by
  let pre : List Piece := [⟨.token .word, ['f']⟩, ⟨.token (.opening .round), ['(']⟩]
  let piece : Piece := ⟨.token .string, "\"a$\x7b'\x7d'\x7d\"".toList⟩
  let post : List Piece := [⟨.blank, [' ']⟩, ⟨.token (.punct '/'), ['/']⟩, ⟨.blank, [' ']⟩,
    ⟨.token .word, ['2']⟩, ⟨.token (.closing .round), [')']⟩]
  have hcut : pieces .groovy "f(\"a$\x7b'\x7d'\x7d\" / 2)".toList = .ok (pre ++ piece :: post) := by
    decide +kernel
  have htokens : tokens .groovy "f(\"a$\x7b'\x7d'\x7d\" / 2)".toList =
      .ok (tokensFrom 0 1 (pre ++ piece :: post)) :=
    tokens_eq_ok_iff.mpr ⟨_, (pieces_eq_ok_iff.mp hcut).1, (pieces_eq_ok_iff.mp hcut).2, rfl⟩
  have htree := tree_eq_ok_iff.mpr ⟨_, _, htokens, rfl, rfl⟩
  obtain ⟨-, otherRoot, others, -, hothers, hother, hframe⟩ := hidden_keeps_frame hcut htokens htree
  exact ⟨_, _, otherRoot, others, htree, htokens, hother, hothers, hframe, by decide +kernel⟩

end Script

end CorpusFacts
