import CorpusFacts.Proofs.Script.LiteralEnds
import CorpusFacts.Proofs.Text.LineEndings

/-!
# Line breaks in literals

The scan for the end of a literal moves on one character at a time, and looks ahead for quotes,
slashes and braces only. So carriage returns before line feeds make no difference to it, with one
exception: in a literal between single quotes, which ends with its line, a backslash takes the next
character with it. Without carriage returns that can be the line feed, and the literal goes on; with
them it is the carriage return, and the line feed behind that breaks the literal off.
-/

namespace CorpusFacts.Script

open OpenLiteral

variable {innermost : OpenLiteral} {outer opened other : List OpenLiteral} {c : Char}
  {text rest : List Char}

/-- Whether a backslash takes a line feed with it, in a literal between single quotes, on the way to
where all that is open is closed. -/
def escapesBreak (opened : List OpenLiteral) (text : List Char) : Bool :=
  match opened, text with
  | innermost :: outer, c :: text =>
    innermost.isSimple && c == '\\' && text.head? == some '\n' ||
      match hnext : innermost.advance outer c text with
      | some (next, later) =>
        have := advance_length hnext
        escapesBreak next later
      | none => false
  | _, _ => false
termination_by text.length

/-- A line break is escaped here or behind the next step. -/
theorem escapesBreak_cons (innermost : OpenLiteral) (outer : List OpenLiteral) (c : Char)
    (text : List Char) :
    escapesBreak (innermost :: outer) (c :: text) =
      (innermost.isSimple && c == '\\' && text.head? == some '\n' ||
        (innermost.advance outer c text).any fun next => escapesBreak next.1 next.2) := by
  rw [escapesBreak]
  congr 1
  split <;> simp [*]

namespace OpenLiteral

/-- A step looks ahead for no line end, so it makes no difference to it whether carriage returns
come before line feeds. -/
theorem advance_withReturns (hbreak : c ≠ '\n')
    (hplain : (innermost.isSimple && c == '\\' && text.head? == some '\n') = false)
    (hopened : List.Forall₂ Alike (innermost :: outer) (innermost :: outer)) :
    innermost.advance outer c (Text.withReturns text) =
      (innermost.advance outer c text).map fun next => (next.1, Text.withReturns next.2) := by
  have hbrace : (Text.withReturns text).head? = some '\x7b' ↔ text.head? = some '\x7b' :=
    Text.head?_withReturns (by decide) (by decide) text
  have htail {d : Char} (hd : d ≠ '\n') (h : text.head? = some d) :
      (Text.withReturns text).tail = Text.withReturns text.tail :=
    Text.tail_withReturns (by simpa [h] using hd)
  have hquotes {quote : Char} (hquote : quote = '"' ∨ quote = '\'') :
      [quote, quote].isPrefixOf (Text.withReturns text) = [quote, quote].isPrefixOf text ∧
        ([quote, quote].isPrefixOf text = true →
          (Text.withReturns text).drop 2 = Text.withReturns (text.drop 2)) := by
    have hline : '\n' ∉ [quote, quote] := by rcases hquote with rfl | rfl <;> decide
    exact ⟨Text.isPrefixOf_withReturns hline (by rcases hquote with rfl | rfl <;> decide) text,
      Text.drop_withReturns hline⟩
  cases innermost with
  | simple quote start =>
    by_cases hescape : c = '\\'
    · subst hescape
      have hhead : text.head? ≠ some '\n' := by simpa [isSimple] using hplain
      simp [advance, Text.tail_withReturns hhead]
    by_cases hdollar : c = '$' ∧ quote = '"' ∧ text.head? = some '\x7b'
    · simp [advance, hdollar, hbrace, htail (by decide) hdollar.2.2]
    · by_cases hclose : c = quote
      · subst hclose
        simp [advance, hbreak, hescape]
      · simp [advance, hbreak, hescape, hclose, hbrace, hdollar]
  | triple quote start =>
    have hquote := (List.forall₂_cons.mp hopened).1.quote_of_triple
    obtain ⟨hstarts, hdrop⟩ := hquotes hquote
    by_cases hopens : [quote, quote].isPrefixOf text = true
    · have hhead : (Text.withReturns (text.drop 2)).head? = some quote ↔
          (text.drop 2).head? = some quote := by
        rcases hquote with rfl | rfl <;>
          exact Text.head?_withReturns (by decide) (by decide) _
      simp only [advance, hstarts, hdrop hopens, ne_eq, hhead]
      split <;> rfl
    · simp [advance, hstarts, hopens]
  | slashy start =>
    have hslash : (Text.withReturns text).head? = some '/' ↔ text.head? = some '/' :=
      Text.head?_withReturns (by decide) (by decide) text
    by_cases hclose : c = '/'
    · simp [advance, hclose]
    by_cases hescape : c = '\\' ∧ text.head? = some '/'
    · simp [advance, hescape, hslash, htail (by decide) hescape.2]
    by_cases hdollar : c = '$' ∧ text.head? = some '\x7b'
    · simp [advance, hdollar, hbrace, htail (by decide) hdollar.2]
    · simp [advance, hclose, hescape, hdollar, hslash, hbrace]
  | template depth start =>
    by_cases hquote : c = '"' ∨ c = '\''
    · obtain ⟨hstarts, hdrop⟩ := hquotes hquote
      have hbraces : c ≠ '\x7b' ∧ c ≠ '\x7d' := by rcases hquote with rfl | rfl <;> decide
      by_cases hopens : [c, c].isPrefixOf text = true
      · simp only [advance, hbraces, hquote, hstarts, hopens, hdrop hopens, if_true, if_false,
          Option.map_some]
      · simp [advance, hbraces, hquote, hstarts, hopens]
    · by_cases hopen : c = '\x7b'
      · simp [advance, hopen]
      · by_cases hclose : c = '\x7d' <;> simp [advance, hopen, hclose, hquote]

/-- Carriage returns are read over. -/
theorem advance_return (hopened : List.Forall₂ Alike (innermost :: outer) (innermost :: outer)) :
    innermost.advance outer '\r' text = some (innermost :: outer, text) := by
  obtain ⟨hinnermost, -⟩ := List.forall₂_cons.mp hopened
  cases hinnermost with
  | simple _ _ hquote => rcases hquote with rfl | rfl <;> simp [advance]
  | triple _ _ hquote => rcases hquote with rfl | rfl <;> simp [advance]
  | _ => simp [advance]

/-- Line feeds are read over as well, but break off a literal between single quotes. -/
theorem advance_break (hopened : List.Forall₂ Alike (innermost :: outer) (innermost :: outer)) :
    innermost.advance outer '\n' text =
      if innermost.isSimple then none else some (innermost :: outer, text) := by
  obtain ⟨hinnermost, -⟩ := List.forall₂_cons.mp hopened
  cases hinnermost with
  | triple _ _ hquote => rcases hquote with rfl | rfl <;> simp [advance, isSimple]
  | _ => simp [advance, isSimple]

end OpenLiteral

/-- A literal with an escaped line break is broken off, if a carriage return comes before it. -/
theorem not_closeLiterals_of_escape
    (hopened : List.Forall₂ Alike (innermost :: outer) (innermost :: outer))
    (hescape : (innermost.isSimple && c == '\\' && text.head? == some '\n') = true) :
    closeLiterals (innermost :: outer) (Text.withReturns (c :: text)) ≠ .ok rest := by
  simp only [Bool.and_eq_true, beq_iff_eq] at hescape
  obtain ⟨⟨hsimple, rfl⟩, hhead⟩ := hescape
  obtain ⟨later, rfl⟩ := List.head?_eq_some_iff.mp hhead
  have hstep : innermost.advance outer '\\' ('\r' :: '\n' :: Text.withReturns later) =
      some (innermost :: outer, '\n' :: Text.withReturns later) := by
    cases innermost <;> simp [isSimple] at hsimple
    simp [advance]
  rw [Text.withReturns_cons (by decide), Text.withReturns_break]
  simp [closeLiterals_cons_iff hopened, hstep, advance_break hopened, hsimple]

/-- A scan comes out at the same place with carriage returns before all line feeds, if it escapes
no line break, and nowhere if it does. -/
theorem closeLiterals_withReturns_iff (hopened : List.Forall₂ Alike opened opened) :
    closeLiterals opened (Text.withReturns text) = .ok rest ↔
      ∃ before, closeLiterals opened text = .ok before ∧ escapesBreak opened text = false ∧
        rest = Text.withReturns before := by
  induction hlength : text.length using Nat.strongRecOn generalizing opened text with
  | ind length ih =>
    subst hlength
    match opened, text with
    | [], text => simp [closeLiterals, escapesBreak, eq_comm]
    | innermost :: outer, [] => simp [closeLiterals]
    | innermost :: outer, c :: text =>
      by_cases hbreak : c = '\n'
      · subst hbreak
        have hrest := ih text.length (by simp) hopened rfl
        rw [Text.withReturns_break, closeLiterals_cons_iff hopened, escapesBreak_cons]
        simp only [advance_return hopened, Option.mem_def, Option.some.injEq, exists_eq_left',
          closeLiterals_cons_iff (c := '\n') hopened, advance_break hopened]
        cases innermost.isSimple <;> simp [hrest]
      cases hescape : innermost.isSimple && c == '\\' && text.head? == some '\n' with
      | true => simp [not_closeLiterals_of_escape hopened hescape, escapesBreak_cons, hescape]
      | false =>
        rw [Text.withReturns_cons hbreak, closeLiterals_cons_iff hopened, escapesBreak_cons,
          advance_withReturns hbreak hescape hopened]
        simp only [closeLiterals_cons_iff hopened, hescape]
        cases hnext : innermost.advance outer c text with
        | none => simp
        | some next =>
          have := advance_length hnext
          have hrest := ih next.2.length (by rw [List.length_cons]; omega)
            (advance_alike hopened hnext) rfl
          simp [hrest]

/-- Whether a scan escapes a line break is seen in what it reads. -/
theorem escapesBreak_append {body : List Char}
    (hopened : List.Forall₂ Alike opened opened)
    (h : closeLiterals opened (body ++ rest) = .ok rest) :
    escapesBreak opened (body ++ rest) = escapesBreak opened body := by
  induction hlength : body.length using Nat.strongRecOn generalizing opened body with
  | ind length ih =>
    subst hlength
    match opened, body with
    | [], body => simp [escapesBreak]
    | innermost :: outer, [] => exact absurd (closeLiterals_length h) (Nat.lt_irrefl _)
    | innermost :: outer, c :: body =>
      rw [List.cons_append, closeLiterals_cons_iff hopened] at h
      obtain ⟨next, hnext, hclose⟩ := h
      obtain ⟨inside, hinside, hbody⟩ := advance_follows hopened (.nil rest) hnext hclose
      rw [List.append_nil, List.append_nil] at hbody
      have hshorter := advance_length hbody
      rw [hinside] at hclose
      have hrest := ih inside.length (by rw [List.length_cons]; omega)
        (advance_alike hopened hnext) hclose rfl
      have hhead : (innermost.isSimple && c == '\\' && (body ++ rest).head? == some '\n') =
          (innermost.isSimple && c == '\\' && body.head? == some '\n') := by
        cases body with
        | cons d body => rfl
        | nil =>
          have hnone : (innermost.isSimple && c == '\\' && [].head? == some '\n') = false := by
            simp
          rw [hnone]
          by_contra hsome
          simp only [Bool.not_eq_false, Bool.and_eq_true, beq_iff_eq] at hsome
          obtain ⟨⟨hsimple, rfl⟩, hbreak⟩ := hsome
          -- The backslash would take the line feed, which is left to follow.
          obtain ⟨later, rfl⟩ := List.head?_eq_some_iff.mp hbreak
          have hstep : innermost.advance outer '\\' ([] ++ '\n' :: later) =
              some (innermost :: outer, later) := by
            cases innermost <;> simp [isSimple] at hsimple
            simp [advance]
          rw [hstep] at hnext
          cases hnext
          have hlonger := congrArg List.length hinside
          simp at hlonger
          omega
      rw [List.cons_append, escapesBreak_cons, escapesBreak_cons, hhead, hbody,
        Option.mem_def.mp hnext]
      simp [hinside, hrest]

/-- What a literal opens with its first delimiter, and what follows that. -/
def opensWith (first : Char) (text : List Char) : OpenLiteral × List Char :=
  if first = '/' then (.slashy [], text)
  else if [first, first].isPrefixOf text then (.triple first [], text.drop 2)
  else (.simple first [], text)

/-- Whether a backslash in a literal takes a line feed with it. That can be so in a literal between
single quotes, and where such a literal is embedded. -/
def literalEscapesBreak : List Char → Bool
  | [] => false
  | first :: text => escapesBreak [(opensWith first text).1] (opensWith first text).2

/-- What follows a literal, given the text behind its first character. -/
def afterLiteral (first : Char) (text : List Char) : Except OpenEnded (List Char) :=
  if first = '/' then afterSlashy text else afterString first text

section Literals

variable {first : Char} {body : List Char}

/-- A literal ends where what it opens is closed. -/
theorem afterLiteral_iff (hfirst : first = '"' ∨ first = '\'' ∨ first = '/') :
    afterLiteral first text = .ok rest ↔
      closeLiterals [(opensWith first text).1] (opensWith first text).2 = .ok rest := by
  by_cases hslash : first = '/'
  · simp only [afterLiteral, opensWith, hslash, if_true, afterSlashy]
    exact closeLiterals_alike_iff (.cons (.slashy _ _) .nil) _ _
  · have hquote : first = '"' ∨ first = '\'' := by simpa [hslash] using hfirst
    rw [afterLiteral, opensWith, if_neg hslash, if_neg hslash]
    by_cases htriple : [first, first].isPrefixOf text = true
    · obtain ⟨after, rfl⟩ := List.isPrefixOf_iff_prefix.mp htriple
      rw [if_pos htriple, List.cons_append, afterString_cons]
      simp only [beq_self_eq_true, List.singleton_append, List.head?_cons, Bool.and_self, if_true]
      exact closeLiterals_alike_iff (.cons (.triple _ _ hquote) .nil) _ _
    · have hsimple : afterString first text =
          closeLiterals [.simple first (first :: text)] text := by
        cases text with
        | nil => rfl
        | cons d text =>
          rw [afterString_cons, if_neg]
          simp only [Bool.and_eq_true, beq_iff_eq]
          rintro ⟨rfl, hhead⟩
          obtain ⟨after, rfl⟩ := List.head?_eq_some_iff.mp hhead
          exact htriple (by simp)
      rw [if_neg htriple, hsimple]
      exact closeLiterals_alike_iff (.cons (.simple _ _ hquote) .nil) _ _

/-- What a literal opens is alike to itself. -/
theorem opensWith_alike (hfirst : first = '"' ∨ first = '\'' ∨ first = '/') (text : List Char) :
    List.Forall₂ Alike [(opensWith first text).1] [(opensWith first text).1] := by
  refine .cons ?_ .nil
  unfold opensWith
  split
  · exact .slashy _ _
  · rename_i hslash
    have hquote : first = '"' ∨ first = '\'' := by simpa [hslash] using hfirst
    split
    · exact .triple _ _ hquote
    · exact .simple _ _ hquote

/-- A literal opens the same with carriage returns before all line feeds. -/
theorem opensWith_withReturns (hfirst : first = '"' ∨ first = '\'' ∨ first = '/')
    (text : List Char) : opensWith first (Text.withReturns text) =
      ((opensWith first text).1, Text.withReturns (opensWith first text).2) := by
  have hbreak : '\n' ∉ [first, first] := by rcases hfirst with rfl | rfl | rfl <;> decide
  have hreturn : '\r' ∉ [first, first] := by rcases hfirst with rfl | rfl | rfl <;> decide
  unfold opensWith
  split
  · rfl
  · rw [Text.isPrefixOf_withReturns hbreak hreturn]
    split
    · rename_i hopens
      have hdrop := Text.drop_withReturns hbreak hopens
      simpa using hdrop
    · rfl

/-- What a literal opens is seen in the literal. -/
theorem opensWith_append
    (h : closeLiterals [(opensWith first (body ++ rest)).1] (opensWith first (body ++ rest)).2 =
      .ok rest) :
    opensWith first (body ++ rest) =
      ((opensWith first body).1, (opensWith first body).2 ++ rest) := by
  have hreach := closeLiterals_reach h
  unfold opensWith at hreach ⊢
  by_cases hslash : first = '/'
  · simp [hslash]
  rw [if_neg hslash] at hreach ⊢
  rw [if_neg hslash]
  match body with
  | d :: e :: inside =>
    by_cases hopens : [first, first].isPrefixOf (d :: e :: inside) = true
    · have hwhole : [first, first].isPrefixOf (d :: e :: inside ++ rest) = true := by
        simpa using hopens
      rw [if_pos hopens, if_pos hwhole]
      rfl
    · have hwhole : ¬ [first, first].isPrefixOf (d :: e :: inside ++ rest) = true := by
        simpa using hopens
      rw [if_neg hopens, if_neg hwhole]
  | [] | [_] =>
    split_ifs at hreach with hopens
    · simp [reach] at hreach
      omega
    · rw [if_neg hopens, if_neg (by simp)]

/-- Whether a scan for the end of a literal escapes a line break is seen in the literal. -/
theorem escapesBreak_opensWith (hfirst : first = '"' ∨ first = '\'' ∨ first = '/')
    (h : afterLiteral first (body ++ rest) = .ok rest) :
    escapesBreak [(opensWith first (body ++ rest)).1] (opensWith first (body ++ rest)).2 =
      literalEscapesBreak (first :: body) := by
  have halike := opensWith_alike hfirst (body ++ rest)
  rw [afterLiteral_iff hfirst] at h
  have hopens := opensWith_append h
  rw [hopens] at h halike ⊢
  exact escapesBreak_append halike h

/-- A literal has the same end with carriage returns before all line feeds, if and only if it escapes
no line break. -/
theorem afterLiteral_withReturns_iff (hfirst : first = '"' ∨ first = '\'' ∨ first = '/')
    (h : afterLiteral first (body ++ rest) = .ok rest) {other : List Char} :
    afterLiteral first (Text.withReturns (body ++ rest)) = .ok other ↔
      literalEscapesBreak (first :: body) = false ∧ other = Text.withReturns rest := by
  have halike := opensWith_alike hfirst (body ++ rest)
  have hescapes := escapesBreak_opensWith hfirst h
  rw [afterLiteral_iff hfirst] at h ⊢
  rw [opensWith_withReturns hfirst, closeLiterals_withReturns_iff halike, hescapes]
  simp only [h, Except.ok.injEq, exists_eq_left']

/-- A literal that ends with carriage returns before all line feeds has the same end without. -/
theorem afterLiteral_of_withReturns (hfirst : first = '"' ∨ first = '\'' ∨ first = '/')
    (h : afterLiteral first (Text.withReturns text) = .ok rest) :
    ∃ before, afterLiteral first text = .ok before ∧ rest = Text.withReturns before := by
  rw [afterLiteral_iff hfirst, opensWith_withReturns hfirst,
    closeLiterals_withReturns_iff (opensWith_alike hfirst text)] at h
  obtain ⟨before, hbefore, -, hrest⟩ := h
  exact ⟨before, (afterLiteral_iff hfirst).mpr hbefore, hrest⟩

end Literals

end CorpusFacts.Script
