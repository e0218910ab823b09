import CorpusFacts.Proofs.Script.Comments

/-!
# Exchanging the end of a script

The end of a script can be exchanged for other pieces where these may follow what stands before: a
comment up to the end of its line needs a line that ends behind it, and all other pieces need what
may follow them. How pieces are read depends on the token before them only in whether an operand may
start there.
-/

namespace CorpusFacts.Script

variable {dialect : Dialect} {before : Option TokenKind}

/-- A comment up to the end of its line is read the same, whatever line end follows it. -/
theorem nextPiece_lineComment {c : Char} {body rest next : List Char} (hends : LineEnds next)
    (h : nextPiece dialect before c (body ++ rest) = .ok (.lineComment, rest)) :
    nextPiece dialect before c (body ++ next) = .ok (.lineComment, next) := by
  refine Cuts.nextPiece ?_
  have hcuts := nextPiece_cuts h
  generalize htext : body ++ rest = text at hcuts
  cases hcuts with
  | lineComment hc hhead hrest =>
    have hdrop : (body ++ next).dropWhile (· != '\n') = next :=
      dropWhile_follows (fun c hc => by simp [hends c hc]) (by rw [htext, hrest])
    cases body with
    | nil =>
      -- The second slash is in the comment, so something of the text is.
      rw [List.nil_append] at htext
      subst htext
      obtain ⟨later, rfl⟩ := List.head?_eq_some_iff.mp hhead
      have hlater := (List.dropWhile_suffix (· != '\n') (l := later)).length_le
      simp only [List.dropWhile_cons, bne_iff_ne, ne_eq, Char.reduceEq, not_false_eq_true,
        if_true] at hrest
      rw [hrest, List.length_cons] at hlater
      omega
    | cons d later =>
      subst htext
      exact .lineComment hc hhead hdrop

/-- A piece is read the same, whatever may follow it. -/
theorem nextPiece_exchange {c : Char} {body rest next : List Char} {kind : PieceKind}
    (hfollows : Follows rest next) (hends : LineEnds rest → LineEnds next)
    (hline : kind = .lineComment → LineEnds rest)
    (h : nextPiece dialect before c (body ++ rest) = .ok (kind, rest)) :
    nextPiece dialect before c (body ++ next) = .ok (kind, next) := by
  by_cases hkind : kind = .lineComment
  · subst hkind
    exact nextPiece_lineComment (hends (hline rfl)) h
  · exact nextPiece_follows hfollows (fun hkind' => (hkind hkind').elim) h

/-- A text may follow in place of another one behind the same text, if it may do so by itself. -/
theorem Follows.append {rest next : List Char} (h : Follows rest next) (text : List Char) :
    Follows (text ++ rest) (text ++ next) := by
  cases text with
  | nil => exact h
  | cons c text => exact Or.inl rfl

/-- Lines end behind the same text, if they end by themselves. -/
theorem LineEnds.append {rest next : List Char} (h : LineEnds rest → LineEnds next)
    (text : List Char) : LineEnds (text ++ rest) → LineEnds (text ++ next) := by
  cases text with
  | nil => exact h
  | cons c text => exact id

/-- What is read at the end can be exchanged for what may follow in its place, if that can be read
behind every token behind which the other could. -/
theorem reads_follows {pieces tail other : List Piece}
    (h : (rule dialect).Reads before (pieces ++ tail))
    (hfollows : Follows (textOf tail) (textOf other))
    (hends : LineEnds (textOf tail) → LineEnds (textOf other))
    (hother : ∀ before, (rule dialect).Reads before tail → (rule dialect).Reads before other) :
    (rule dialect).Reads before (pieces ++ other) := by
  induction pieces generalizing before with
  | nil => exact hother before h
  | cons piece pieces ih =>
    rw [List.cons_append] at h ⊢
    cases h with
    | @cons _ kind c body _ hnext hrest =>
      refine .cons (nextPiece_exchange ?_ ?_ ?_ hnext) (ih hrest)
      · rw [textOf_append, textOf_append]
        exact hfollows.append _
      · rw [textOf_append, textOf_append]
        exact LineEnds.append hends _
      · rintro rfl
        exact lineEnds_of_lineComment hnext

/-- A first line that names no interpreter does not come to name one by what may follow in place of
its end. -/
theorem plain_of_follows {text rest next : List Char} (hplain : ¬ ['#', '!'] <+: text ++ rest)
    (hfollows : Follows rest next) (hnext : ¬ ['#', '!'] <+: next) :
    ¬ ['#', '!'] <+: text ++ next := by
  intro hnames
  match text with
  | [] => exact hnext hnames
  | [c] =>
    obtain ⟨rfl, hmark⟩ : '#' = c ∧ ['!'] <+: next := by
      simpa [List.cons_prefix_cons] using hnames
    obtain ⟨later, rfl⟩ := hmark
    rcases hfollows with hsame | hnone | hblank | hbreak
    · obtain ⟨later, rfl⟩ := List.head?_eq_some_iff.mp hsame.symm
      exact hplain (by simp)
    · simp at hnone
    · simp at hblank
    · simp at hbreak
  | c :: d :: text =>
    refine hplain ?_
    simpa [List.cons_prefix_cons] using hnames

/-- The end of a script can be exchanged for pieces that may follow in its place and that name no
interpreter. -/
theorem ReadsScript.follows {pieces tail other : List Piece}
    (h : ReadsScript dialect (pieces ++ tail))
    (htail : ∀ piece ∈ tail.head?, piece.kind ≠ .interpreter)
    (hfollows : Follows (textOf tail) (textOf other))
    (hends : LineEnds (textOf tail) → LineEnds (textOf other))
    (hnames : ¬ ['#', '!'] <+: textOf other)
    (hother : ∀ before, (rule dialect).Reads before tail → (rule dialect).Reads before other) :
    ReadsScript dialect (pieces ++ other) := by
  generalize hcut : pieces ++ tail = cut at h
  cases h with
  | plain hplain hreads =>
    subst hcut
    refine .plain ?_ (reads_follows hreads hfollows hends hother)
    rw [textOf_append] at hplain ⊢
    exact plain_of_follows hplain hfollows hnames
  | @interpreter line later hline hbreak hend hreads =>
    cases pieces with
    | nil =>
      rw [List.nil_append] at hcut
      exact (htail _ (by rw [hcut]; rfl) rfl).elim
    | cons first pieces =>
      rw [List.cons_append, List.cons.injEq] at hcut
      obtain ⟨rfl, rfl⟩ := hcut
      refine .interpreter hline hbreak ?_ (reads_follows hreads hfollows hends hother)
      have hlater := LineEnds.append hends (textOf pieces)
      rw [← textOf_append, ← textOf_append] at hlater
      exact hlater hend

/-- Pieces are read alike behind two tokens, if operands may start behind both or behind neither. -/
theorem reads_of_startsOperand {other : Option TokenKind} {pieces : List Piece}
    (hsame : startsOperand other = startsOperand before) (h : (rule dialect).Reads before pieces) :
    (rule dialect).Reads other pieces := by
  induction h generalizing other with
  | nil => exact .nil
  | @cons before kind c body pieces hnext _ ih =>
    have hother : nextPiece dialect other c (body ++ textOf pieces) =
        nextPiece dialect before c (body ++ textOf pieces) := by
      simp only [nextPiece, hsame]
    refine .cons (hother.trans hnext) (ih ?_)
    cases kind <;> first | exact hsame | rfl

end CorpusFacts.Script
