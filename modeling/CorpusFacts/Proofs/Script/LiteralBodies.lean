import CorpusFacts.Proofs.Script.PieceEnds

/-!
# What stands between the delimiters of a literal

A literal ends with the delimiter that it starts with. What is between the two does not matter to
where the literal ends, so a single letter there makes a literal as well.
-/

namespace CorpusFacts.Script

/-- The characters that close a literal or an embedded expression. -/
def OpenLiteral.closer : OpenLiteral → List Char
  | .simple quote _ => [quote]
  | .triple quote _ => [quote, quote, quote]
  | .slashy _ => ['/']
  | .template _ _ => ['\x7d']

/-- A text closes a literal right in front of what follows it; no further quote follows tripled
ones. -/
structure OpenLiteral.ClosedBy (literal : OpenLiteral) (text rest : List Char) : Prop where
  /-- The last characters close the literal. -/
  closer : ∃ body, text = body ++ (literal.closer ++ rest)
  /-- A literal between tripled quotes takes all quotes at its end. -/
  behind : ∀ quote start, literal = .triple quote start → rest.head? ≠ some quote

namespace OpenLiteral.ClosedBy

variable {literal : OpenLiteral} {text rest : List Char}

/-- More characters before a text that closes a literal make no difference. -/
theorem cons (h : literal.ClosedBy text rest) (c : Char) : literal.ClosedBy (c :: text) rest := by
  obtain ⟨⟨body, rfl⟩, hbehind⟩ := h
  exact ⟨⟨c :: body, rfl⟩, hbehind⟩

/-- A literal is closed by its own delimiter. -/
theorem here (literal : OpenLiteral) {rest : List Char}
    (h : ∀ quote start, literal = .triple quote start → rest.head? ≠ some quote) :
    literal.ClosedBy (literal.closer ++ rest) rest :=
  ⟨⟨[], rfl⟩, h⟩

end OpenLiteral.ClosedBy

/-- Where an inner literal is closed, the outermost one is closed later or was this one. -/
theorem closedBy_of_outer {innermost : OpenLiteral} {outer : List OpenLiteral}
    {text rest : List Char} (h : closeLiterals outer text = .ok rest)
    (hinnermost : ∀ quote start, innermost = .triple quote start → text.head? ≠ some quote)
    (houter : ∀ literal ∈ outer.getLast?, literal.ClosedBy text rest) :
    ∀ literal ∈ (innermost :: outer).getLast?,
      literal.ClosedBy (innermost.closer ++ text) rest := by
  intro literal hliteral
  cases outer with
  | nil =>
    obtain rfl : innermost = literal := by simpa using hliteral
    rw [closeLiterals] at h
    cases h
    exact .here _ hinnermost
  | cons next outer =>
    obtain ⟨⟨body, htext⟩, hbehind⟩ := houter literal (by simpa using hliteral)
    exact ⟨⟨innermost.closer ++ body, by rw [htext, List.append_assoc]⟩, hbehind⟩

/-- What is open outermost is closed by its own delimiter, last of all. -/
theorem closeLiterals_closedBy {opened : List OpenLiteral} {text rest : List Char}
    (h : closeLiterals opened text = .ok rest) :
    ∀ literal ∈ opened.getLast?, literal.ClosedBy text rest := by
  -- An expression between braces is the outermost one whatever its depth.
  have hdepth {depth other : Nat} {start text : List Char} {outer : List OpenLiteral}
      (h : ∀ literal ∈ (OpenLiteral.template other start :: outer).getLast?,
        literal.ClosedBy text rest) :
      ∀ literal ∈ (OpenLiteral.template depth start :: outer).getLast?,
        literal.ClosedBy text rest := by
    intro literal hliteral
    cases outer with
    | nil =>
      obtain rfl : .template depth start = literal := by simpa using hliteral
      exact ⟨(h (.template other start) rfl).closer, by simp⟩
    | cons next outer => exact h literal (by simpa using hliteral)
  fun_induction closeLiterals opened text with
  | case1 => simp
  | case5 quote start outer c hline hescape d after ih =>
    exact fun literal hliteral => ((ih h literal hliteral).cons d).cons c
  | case6 quote start outer c text hline hescape hclose ih =>
    obtain rfl : c = quote := by simpa using hclose
    exact closedBy_of_outer h (by simp) (ih h)
  | case8 quote start outer c hline hescape hclose hdollar d after hbrace ih =>
    exact fun literal hliteral => ((ih h literal (by simpa using hliteral)).cons d).cons c
  | case11 quote start outer c d e after hclose ih =>
    simp only [Bool.and_eq_true, beq_iff_eq, bne_iff_ne] at hclose
    obtain ⟨⟨⟨rfl, rfl⟩, rfl⟩, hbehind⟩ := hclose
    exact closedBy_of_outer h (by rintro _ _ ⟨⟩; exact hbehind) (ih h)
  | case14 start outer c text hclose ih =>
    obtain rfl : c = '/' := by simpa using hclose
    exact closedBy_of_outer h (by simp) (ih h)
  | case16 start outer c hclose d after hescape ih =>
    exact fun literal hliteral => ((ih h literal hliteral).cons d).cons c
  | case17 start outer c hclose d after hescape hdollar ih =>
    exact fun literal hliteral => ((ih h literal (by simpa using hliteral)).cons d).cons c
  | case19 depth start outer c text hopen ih =>
    exact fun literal hliteral => (hdepth (ih h) literal hliteral).cons c
  | case20 depth start outer c text hopen hclose hlast ih =>
    obtain rfl : c = '\x7d' := by simpa using hclose
    exact closedBy_of_outer h (by simp) (ih h)
  | case21 depth start outer c text hopen hclose hlast ih =>
    exact fun literal hliteral => (hdepth (ih h) literal hliteral).cons c
  | case22 depth start outer c hopen hclose hquote d e after htriple ih =>
    exact fun literal hliteral =>
      (((ih h literal (by simpa using hliteral)).cons e).cons d).cons c
  | case23 depth start outer c hopen hclose hquote d e after htriple ih =>
    exact fun literal hliteral => (ih h literal (by simpa using hliteral)).cons c
  | case24 depth start outer c hopen hclose hquote d ih =>
    exact fun literal hliteral => (ih h literal (by simpa using hliteral)).cons c
  | case25 depth start outer c hopen hclose hquote ih =>
    exact fun literal hliteral => (ih h literal (by simpa using hliteral)).cons c
  | case9 _ _ _ c _ _ _ _ _ _ _ ih => exact fun literal hliteral => (ih h literal hliteral).cons c
  | case10 _ _ _ c _ _ _ _ _ ih => exact fun literal hliteral => (ih h literal hliteral).cons c
  | case12 _ _ _ c _ _ _ _ ih => exact fun literal hliteral => (ih h literal hliteral).cons c
  | case18 _ _ c _ _ _ _ _ ih => exact fun literal hliteral => (ih h literal hliteral).cons c
  | case26 _ _ _ c _ _ _ _ ih => exact fun literal hliteral => (ih h literal hliteral).cons c
  | _ => cases h

/-- The delimiter that a literal starts and ends with: three quotes, one quote, or a slash. -/
def delimiter : List Char → List Char
  | first :: second :: third :: _ =>
    if second == first && third == first then [first, first, first] else [first]
  | text => text.take 1

/-- A literal with a single letter between its delimiters. -/
def withLetter (text : List Char) : List Char :=
  delimiter text ++ 'x' :: delimiter text

/-- A literal whose first three characters are not all the same starts with a single delimiter. -/
theorem delimiter_cons {first : Char} {body : List Char}
    (h : ¬ (body.head? = some first ∧ body.tail.head? = some first)) :
    delimiter (first :: body) = [first] := by
  match body with
  | [] => rfl
  | [second] => rfl
  | second :: third :: rest => simpa [delimiter] using h

variable {dialect : Dialect} {before : Option TokenKind} {c : Char} {body rest : List Char}

/-- What closes a single literal stands at the end of it. -/
theorem closeLiterals_single {literal : OpenLiteral}
    (h : closeLiterals [literal] (body ++ rest) = .ok rest) :
    (∃ inside, body = inside ++ literal.closer) ∧
      ∀ quote start, literal = .triple quote start → rest.head? ≠ some quote := by
  obtain ⟨⟨inside, hinside⟩, hbehind⟩ := closeLiterals_closedBy h literal rfl
  refine ⟨⟨inside, List.append_cancel_right (hinside.trans ?_)⟩, hbehind⟩
  rw [List.append_assoc]

/-- A literal between slashes has its body between two slashes, and a letter may take its place. -/
theorem slashy_body (hline : (body ++ rest).head? ≠ some '/')
    (hrest : afterSlashy (body ++ rest) = .ok rest) :
    delimiter ('/' :: body) = ['/'] ∧ (∃ inside, body = inside ++ ['/']) ∧
      afterSlashy ('x' :: '/' :: rest) = .ok rest := by
  refine ⟨delimiter_cons fun hslash => hline ?_, (closeLiterals_single hrest).1, ?_⟩
  · obtain ⟨later, rfl⟩ := List.head?_eq_some_iff.mp hslash.1
    rfl
  · simp [afterSlashy, closeLiterals.eq_def]

/-- A literal between single quotes, with a letter in it. -/
theorem afterString_letter (hquote : c = '"' ∨ c = '\'') (rest : List Char) :
    afterString c ('x' :: c :: rest) = .ok rest := by
  rcases hquote with rfl | rfl <;> simp [afterString_cons, closeLiterals.eq_def]

/-- A literal between tripled quotes, with a letter in it. -/
theorem afterString_triple_letter (hquote : c = '"' ∨ c = '\'') (hbehind : rest.head? ≠ some c) :
    afterString c (c :: c :: 'x' :: c :: c :: c :: rest) = .ok rest := by
  have hletter : ('x' == c) = false := by rcases hquote with rfl | rfl <;> decide
  simp [afterString_cons, closeLiterals, hletter, hbehind]

/-- A quoted literal has its body between two delimiters, and a letter may take its place. -/
theorem string_body (hquote : c = '"' ∨ c = '\'')
    (hrest : afterString c (body ++ rest) = .ok rest) :
    (∃ inside, c :: body = delimiter (c :: body) ++ (inside ++ delimiter (c :: body))) ∧
      ∃ later, withLetter (c :: body) = c :: later ∧ afterString c (later ++ rest) = .ok rest := by
  cases body with
  | nil => exact (Nat.lt_irrefl _ (afterString_length hrest)).elim
  | cons d body =>
    rw [List.cons_append, afterString_cons] at hrest
    split at hrest
    · rename_i hopens
      -- Two quotes more: the body of the token has room for them and the three at its end.
      simp only [Bool.and_eq_true, beq_iff_eq] at hopens
      obtain ⟨rfl, hhead⟩ := hopens
      have hreach := closeLiterals_reach hrest
      cases body with
      | nil =>
        simp [OpenLiteral.reach] at hreach
        omega
      | cons e body =>
        obtain rfl : e = d := by simpa using hhead
        obtain ⟨⟨inside, hinside⟩, hbehind⟩ := closeLiterals_single hrest
        have hdelimiter : delimiter (e :: e :: e :: body) = [e, e, e] := by simp [delimiter]
        refine ⟨⟨inside, ?_⟩, e :: e :: 'x' :: [e, e, e], ?_, ?_⟩
        · rw [hdelimiter, hinside]
          rfl
        · rw [withLetter, hdelimiter]
          rfl
        · exact afterString_triple_letter hquote (hbehind _ _ rfl)
    · rename_i hopens
      rw [← List.cons_append] at hrest
      obtain ⟨⟨inside, hinside⟩, -⟩ := closeLiterals_single hrest
      have hdelimiter : delimiter (c :: d :: body) = [c] := by
        refine delimiter_cons fun hsame => hopens ?_
        obtain ⟨later, rfl⟩ := List.head?_eq_some_iff.mp hsame.2
        simpa using hsame.1
      refine ⟨⟨inside, by rw [hdelimiter, hinside]; rfl⟩, ['x', c], ?_, ?_⟩
      · rw [withLetter, hdelimiter]
        rfl
      · exact afterString_letter hquote rest

end CorpusFacts.Script
