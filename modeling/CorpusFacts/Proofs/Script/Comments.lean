import CorpusFacts.Proofs.Script.Likeness
import CorpusFacts.Proofs.Script.PieceEnds

/-!
# Scripts without their comments

A comment between delimiters gives way to a blank, and one up to the end of its line to nothing.
What is left is read piece by piece as before. So the script keeps its tokens one by one, and only
their places change.
-/

namespace CorpusFacts

/-- Whether a piece is a comment. -/
def PieceKind.isComment : PieceKind → Bool
  | .lineComment => true
  | .blockComment => true
  | _ => false

/-- What is left of a piece without comments. -/
def Piece.bare? (piece : Piece) : Option Piece :=
  match piece.kind with
  | .blockComment => some ⟨.blank, [' ']⟩
  | .lineComment => none
  | _ => some piece

/-- Some pieces without the comments among them. -/
def withoutComments (pieces : List Piece) : List Piece :=
  pieces.filterMap Piece.bare?

@[simp] theorem withoutComments_nil : withoutComments [] = [] := rfl

@[simp] theorem withoutComments_append (first second : List Piece) :
    withoutComments (first ++ second) = withoutComments first ++ withoutComments second :=
  List.filterMap_append

@[simp] theorem withoutComments_blockComment (text : List Char) (pieces : List Piece) :
    withoutComments (⟨.blockComment, text⟩ :: pieces) = ⟨.blank, [' ']⟩ :: withoutComments pieces :=
  rfl

@[simp] theorem withoutComments_lineComment (text : List Char) (pieces : List Piece) :
    withoutComments (⟨.lineComment, text⟩ :: pieces) = withoutComments pieces := rfl

/-- A piece that is no comment stays. -/
theorem withoutComments_cons {piece : Piece} (hpiece : piece.kind.isComment = false)
    (pieces : List Piece) :
    withoutComments (piece :: pieces) = piece :: withoutComments pieces := by
  obtain ⟨kind, text⟩ := piece
  cases kind <;> first | rfl | cases hpiece

/-- Pieces without comments among them stay as they are. -/
theorem withoutComments_of_none {pieces : List Piece}
    (h : ∀ piece ∈ pieces, piece.kind.isComment = false) : withoutComments pieces = pieces := by
  induction pieces with
  | nil => rfl
  | cons piece pieces ih =>
    rw [withoutComments_cons (h piece (by simp)), ih fun other hother => h other (by simp [hother])]

namespace Script

variable {dialect : Dialect} {before : Option TokenKind} {pieces : List Piece}

/-- Whether a line ends at the start of a text. -/
def LineEnds (text : List Char) : Prop :=
  ∀ c ∈ text.head?, c = '\n'

/-- What is read where a line ends is a line break. -/
theorem kind_of_break {kind : PieceKind} {body : List Char}
    (h : nextPiece dialect before '\n' (body ++ textOf pieces) = .ok (kind, textOf pieces)) :
    kind = .token .newline := by
  have hbreak : nextPiece dialect before '\n' (body ++ textOf pieces) =
      .ok (.token .newline, body ++ textOf pieces) := rfl
  rw [hbreak, Except.ok.injEq, Prod.mk.injEq] at h
  exact h.1.symm

/-- A line that ends also ends without comments behind. -/
theorem LineEnds.bare (h : (rule dialect).Reads before pieces) (hends : LineEnds (textOf pieces)) :
    LineEnds (textOf (withoutComments pieces)) := by
  cases h with
  | nil => simp [LineEnds]
  | @cons _ kind c body pieces hnext hreads =>
    obtain rfl : c = '\n' := hends c rfl
    obtain rfl := kind_of_break (show nextPiece dialect before '\n' _ = _ from hnext)
    rw [withoutComments_cons rfl]
    simp [LineEnds]

/-- A comment up to the end of its line ends where the line does. -/
theorem lineEnds_of_lineComment {c : Char} {body : List Char}
    (h : nextPiece dialect before c (body ++ textOf pieces) = .ok (.lineComment, textOf pieces)) :
    LineEnds (textOf pieces) := by
  have hcuts := nextPiece_cuts h
  generalize body ++ textOf pieces = text at hcuts
  generalize textOf pieces = rest at hcuts
  cases hcuts with
  | lineComment _ _ hrest =>
    intro d hd
    have := List.head?_dropWhile_not (· != '\n') text
    rw [hrest, hd] at this
    simpa using this

/-- Without comments, what follows a piece may still follow it. -/
theorem follows_bare (h : (rule dialect).Reads before pieces) :
    Follows (textOf pieces) (textOf (withoutComments pieces)) := by
  cases h with
  | nil => exact Or.inl rfl
  | @cons _ kind c body pieces hnext hreads =>
    cases kind with
    | blockComment => exact Or.inr (Or.inr (Or.inl rfl))
    | lineComment =>
      have hends := (lineEnds_of_lineComment hnext).bare hreads
      rw [withoutComments_lineComment]
      cases hhead : (textOf (withoutComments pieces)).head? with
      | none => exact Or.inr (Or.inl hhead)
      | some d => exact Or.inr (Or.inr (Or.inr (by rw [hhead, hends d hhead])))
    | _ =>
      rw [withoutComments_cons rfl]
      exact Or.inl rfl

/-- Pieces are read as before without the comments among them. -/
theorem reads_bare (h : (rule dialect).Reads before pieces) :
    (rule dialect).Reads before (withoutComments pieces) := by
  induction h with
  | nil => exact .nil
  | @cons before kind c body pieces hnext hreads ih =>
    cases kind with
    | blockComment =>
      have hblank : Cuts dialect before ' ' ([] ++ textOf (withoutComments pieces)) .blank
          (textOf (withoutComments pieces)) := .blank rfl
      exact .cons hblank.nextPiece ih
    | lineComment => exact ih
    | _ =>
      rw [withoutComments_cons rfl]
      exact .cons (nextPiece_follows (follows_bare hreads) (fun hline => by cases hline) hnext) ih

/-- A script that names no interpreter names none without its comments. -/
theorem names_no_interpreter_bare (h : (rule dialect).Reads before pieces)
    (hplain : ¬ ['#', '!'] <+: textOf pieces) :
    ¬ ['#', '!'] <+: textOf (withoutComments pieces) := by
  rintro ⟨rest, hrest⟩
  cases h with
  | nil => simp at hrest
  | @cons _ kind c body pieces hnext hreads =>
    cases kind with
    | blockComment => simp at hrest
    | lineComment =>
      have hends := (lineEnds_of_lineComment hnext).bare hreads
      rw [withoutComments_lineComment] at hrest
      rw [← hrest] at hends
      exact absurd (hends '#' rfl) (by decide)
    | _ =>
      rw [withoutComments_cons rfl] at hrest
      simp only [textOf_cons, List.cons_append, List.nil_append, List.cons.injEq] at hrest
      obtain ⟨rfl, hrest⟩ := hrest
      -- The mark `#` is a piece of its own, so only what follows it could have changed.
      have hmark : nextPiece dialect before '#' (body ++ textOf pieces) =
          .ok (.token (.punct '#'), body ++ textOf pieces) := by
        have hcuts : Cuts dialect before '#' (body ++ textOf pieces) (.token (.punct '#'))
          (body ++ textOf pieces) := .punct (by decide) (by decide) (by decide) rfl rfl
        exact hcuts.nextPiece
      have hnext' := hnext
      change nextPiece dialect before '#' (body ++ textOf pieces) = _ at hnext'
      rw [hmark, Except.ok.injEq, Prod.mk.injEq] at hnext'
      obtain rfl : body = [] := by simpa using hnext'.2
      rw [List.nil_append] at hrest
      have hfollows := follows_bare hreads
      rw [← hrest] at hfollows
      rcases hfollows with hsame | hnone | hblank | hbreak
      · obtain ⟨later, hlater⟩ := List.head?_eq_some_iff.mp hsame.symm
        exact hplain ⟨later, by simp [hlater]⟩
      · simp at hnone
      · simp at hblank
      · simp at hbreak

/-- A script is read as before without its comments. -/
theorem ReadsScript.bare {cut : List Piece} (h : ReadsScript dialect cut) :
    ReadsScript dialect (withoutComments cut) := by
  cases h with
  | plain hplain hreads =>
    exact .plain (names_no_interpreter_bare hreads hplain) (reads_bare hreads)
  | interpreter hnames hline hend hreads =>
    rw [withoutComments_cons rfl]
    exact .interpreter hnames hline (LineEnds.bare hreads hend) (reads_bare hreads)

/-- A place between two pieces of a script has a byte in the script, and another one in the script
without its comments. -/
def SamePlace (cut : List Piece) (byte bareByte : Nat) : Prop :=
  ∃ first second, cut = first ++ second ∧ byte = Text.byteLength (textOf first) ∧
    bareByte = Text.byteLength (textOf (withoutComments first))

/-- Tokens correspond that start and end at the same places of a script with and without its
comments. -/
def barely (cut : List Piece) : Likeness where
  like token twin := twin.kind = token.kind ∧ twin.text = token.text ∧
    SamePlace cut token.start twin.start ∧ SamePlace cut token.stop twin.stop
  kind_eq _ _ h := h.1
  text_eq _ _ h := h.2.1

/-- Where the tokens read last end, behind some pieces of a script: not behind these pieces, and in
both scripts or in neither right at their end, unless a line ends there. -/
structure EndAlike (read pieces : List Piece) (last otherLast : Option Token) : Prop where
  /-- The token read last lies in the pieces. -/
  within : ∀ token ∈ last, token.stop ≤ Text.byteLength (textOf read)
  /-- The other token read last lies in what is left of them. -/
  otherWithin : ∀ token ∈ otherLast, token.stop ≤ Text.byteLength (textOf (withoutComments read))
  /-- Both end where the pieces do, or neither does. -/
  touch : LineEnds (textOf pieces) ∨ ∀ token ∈ last, ∀ other ∈ otherLast,
    (other.stop = Text.byteLength (textOf (withoutComments read)) ↔
      token.stop = Text.byteLength (textOf read))

namespace EndAlike

variable {read later : List Piece} {last otherLast : Option Token} {piece barePiece : Piece}

/-- Behind a gap that stays a gap neither token ends. -/
theorem gap (h : EndAlike read pieces last otherLast) (hproper : piece.text ≠ [])
    (hbare : withoutComments [piece] = [barePiece]) (hbareProper : barePiece.text ≠ []) :
    EndAlike (read ++ [piece]) later last otherLast := by
  have hpos := Text.byteLength_pos hproper
  have hbarePos := Text.byteLength_pos hbareProper
  have hread : Text.byteLength (textOf (read ++ [piece])) =
      Text.byteLength (textOf read) + Text.byteLength piece.text := by simp
  have hbareRead : Text.byteLength (textOf (withoutComments (read ++ [piece]))) =
      Text.byteLength (textOf (withoutComments read)) + Text.byteLength barePiece.text := by
    simp [hbare]
  refine ⟨?_, ?_, Or.inr ?_⟩
  · intro token htoken
    have := h.within token htoken
    omega
  · intro token htoken
    have := h.otherWithin token htoken
    omega
  · intro token htoken other hother
    have := h.within token htoken
    have := h.otherWithin other hother
    omega

/-- A comment up to the end of its line is followed by the end of the line. -/
theorem lineComment {text : List Char} (h : EndAlike read pieces last otherLast)
    (hends : LineEnds (textOf later)) :
    EndAlike (read ++ [⟨.lineComment, text⟩]) later last otherLast := by
  refine ⟨?_, ?_, Or.inl hends⟩
  · intro token htoken
    have := h.within token htoken
    simp only [textOf_append, Text.byteLength_append]
    omega
  · simpa using h.otherWithin

/-- Right behind two tokens both end. -/
theorem token {kind : TokenKind} {text : List Char} (token other : Token)
    (hstop : token.stop = Text.byteLength (textOf (read ++ [⟨.token kind, text⟩])))
    (hother : other.stop =
      Text.byteLength (textOf (withoutComments (read ++ [⟨.token kind, text⟩])))) :
    EndAlike (read ++ [⟨.token kind, text⟩]) later (some token) (some other) := by
  refine ⟨?_, ?_, Or.inr ?_⟩
  · rintro _ ⟨⟩
    exact hstop.le
  · rintro _ ⟨⟩
    exact hother.le
  · rintro _ ⟨⟩ _ ⟨⟩
    simp [hstop, hother]

/-- Marks touch the tokens before them in both scripts or in neither. -/
theorem touchAlike {kind : TokenKind} {c : Char} {body : List Char} {token twin : Token}
    (h : EndAlike read (⟨.token kind, c :: body⟩ :: later) last otherLast)
    (hnext : nextPiece dialect before c (body ++ textOf later) = .ok (.token kind, textOf later))
    (hkind : token.kind = kind) (hstart : token.start = Text.byteLength (textOf read))
    (htwin : twin.start = Text.byteLength (textOf (withoutComments read))) :
    TouchAlike last otherLast token twin := by
  intro mark hmark first hfirst other hother
  rcases h.touch with hends | htouch
  · obtain rfl : c = '\n' := hends c rfl
    have hbreak := kind_of_break hnext
    rw [← hkind, hmark] at hbreak
    cases hbreak
  · rw [Bool.eq_iff_iff, beq_iff_eq, beq_iff_eq, hstart, htwin]
    exact htouch first hfirst other hother

end EndAlike

/-- The tokens of a script correspond to those without its comments. A comment up to the end of its
line leaves nothing behind, so there a token can come to touch the next one; but that is a line
break. -/
theorem twins_bare {cut read : List Piece} {last otherLast : Option Token} (line otherLine : Nat)
    (hreads : (rule dialect).Reads before pieces) (hcut : cut = read ++ pieces)
    (h : EndAlike read pieces last otherLast) :
    Twins (barely cut).like last otherLast
      (tokensFrom (Text.byteLength (textOf read)) line pieces)
      (tokensFrom (Text.byteLength (textOf (withoutComments read))) otherLine
        (withoutComments pieces)) := by
  -- `EndAlike` is the invariant: it says which tokens read last touch what is read next.
  induction hreads generalizing read last otherLast line otherLine with
  | nil => exact .nil
  | @cons before kind c body pieces hnext hreads ih =>
    have hsplit : cut = (read ++ [⟨kind, c :: body⟩]) ++ pieces := by rw [hcut]; simp
    have hread : Text.byteLength (textOf (read ++ [⟨kind, c :: body⟩])) =
        Text.byteLength (textOf read) + Text.byteLength (c :: body) := by
      rw [textOf_append, Text.byteLength_append]
      simp
    have hstays (kind : PieceKind) (hkind : kind.isComment = false) : Text.byteLength
        (textOf (withoutComments (read ++ [⟨kind, c :: body⟩]))) =
        Text.byteLength (textOf (withoutComments read)) + Text.byteLength (c :: body) := by
      rw [withoutComments_append, withoutComments_cons hkind, textOf_append, Text.byteLength_append]
      simp
    cases kind with
    | token kind =>
      have hbare := hstays (.token kind) rfl
      have hrest := ih (line + Text.newlines (c :: body)) (otherLine + Text.newlines (c :: body))
        hsplit (EndAlike.token ⟨kind, c :: body, _, line⟩ ⟨kind, c :: body, _, otherLine⟩ hread.symm
          hbare.symm)
      rw [hread, hbare] at hrest
      refine .cons ⟨rfl, rfl, ⟨read, _, hcut, rfl, rfl⟩, _, _, hsplit, hread.symm, hbare.symm⟩ ?_
        hrest
      exact h.touchAlike hnext rfl rfl rfl
    | lineComment =>
      have hrest := ih (line + Text.newlines (c :: body)) otherLine hsplit
        (h.lineComment (lineEnds_of_lineComment hnext))
      have hnone : withoutComments (read ++ [⟨.lineComment, c :: body⟩]) =
          withoutComments read := by simp
      rw [hread, hnone] at hrest
      exact hrest
    | blockComment =>
      have hbare : Text.byteLength
          (textOf (withoutComments (read ++ [⟨.blockComment, c :: body⟩]))) =
          Text.byteLength (textOf (withoutComments read)) + Text.byteLength [' '] := by
        simp
      have hrest := ih (line + Text.newlines (c :: body)) (otherLine + Text.newlines [' ']) hsplit
        (h.gap (by simp) rfl (by simp))
      rw [hread, hbare] at hrest
      exact hrest
    | _ =>
      have hrest := ih (line + Text.newlines (c :: body)) (otherLine + Text.newlines (c :: body))
        hsplit (h.gap (by simp) rfl (by simp))
      rw [hread, hstays _ rfl] at hrest
      exact hrest

/-- A script has an outline without its comments where it has one, and the two are alike. -/
theorem ReadsScript.outline_bare {cut : List Piece} {items : List Item}
    (h : ReadsScript dialect cut) (hitems : outline (tokensFrom 0 1 cut) = .ok items) :
    ∃ bareItems, outline (tokensFrom 0 1 (withoutComments cut)) = .ok bareItems ∧
      (barely cut).Items items bareItems := by
  cases h with
  | plain _ hreads =>
    have hends : EndAlike [] cut none none := ⟨by simp, by simp, Or.inr (by simp)⟩
    exact Likeness.outline (twins_bare 1 1 hreads rfl hends) hitems
  | @interpreter line later _ _ _ hreads =>
    have hends : EndAlike [⟨.interpreter, line⟩] later none none :=
      ⟨by simp, by simp, Or.inr (by simp)⟩
    have htwins := twins_bare (1 + Text.newlines line) (1 + Text.newlines line) hreads rfl hends
    have hbyte : Text.byteLength (textOf [⟨.interpreter, line⟩]) = 0 + Text.byteLength line := by
      simp
    rw [withoutComments_cons rfl, withoutComments_nil, hbyte] at htwins
    exact Likeness.outline htwins hitems

end Script

end CorpusFacts
