import CorpusFacts.Script.Literal
import Mathlib.Algebra.Ring.Nat
import Mathlib.Data.List.Forall2
import Mathlib.Tactic.Common

/-!
# What follows a literal

Where a literal or comment ends is known from its own characters. The scan for the end of a literal
moves on one character at a time, and only behind quotes does it look one character further than
what it closes. A blank or line break there is as good as any other character that is no quote. So
what follows can be exchanged at each step, and the literal still ends in the same place.
-/

namespace CorpusFacts.Script

/-- A text may follow in place of another one: it starts with the same character, or with a blank or
line break, or it is empty. -/
def Follows (rest other : List Char) : Prop :=
  other.head? = rest.head? ∨ other.head? = none ∨ other.head? = some ' ' ∨ other.head? = some '\n'

/-- A character that does not follow does not follow afterwards either, unless it is a blank or line
break. -/
theorem Follows.head?_ne {rest other : List Char} {c : Char} (h : Follows rest other)
    (hc : c ≠ ' ' ∧ c ≠ '\n') (hrest : rest.head? ≠ some c) : other.head? ≠ some c := by
  rcases h with h | h | h | h <;> rw [h]
  · exact hrest
  · simp
  · simpa using hc.1.symm
  · simpa using hc.2.symm

/-- No quote follows in place of a text, unless that text starts with it as well. -/
def AddsNoQuote (rest other : List Char) : Prop :=
  ∀ quote, quote = '"' ∨ quote = '\'' → rest.head? ≠ some quote → other.head? ≠ some quote

theorem Follows.addsNoQuote {rest other : List Char} (h : Follows rest other) :
    AddsNoQuote rest other :=
  fun _ hquote => h.head?_ne (by rcases hquote with rfl | rfl <;> decide)

/-- No quote follows where nothing does. -/
theorem AddsNoQuote.nil (rest : List Char) : AddsNoQuote rest [] :=
  fun _ _ _ h => nomatch h

namespace OpenLiteral

/-- Two open literals are the same but for the text that they keep. -/
inductive Alike : OpenLiteral → OpenLiteral → Prop
  /-- Both are between the same single quotes. -/
  | simple {quote : Char} (start other : List Char) (hquote : quote = '"' ∨ quote = '\'') :
      Alike (.simple quote start) (.simple quote other)
  /-- Both are between the same tripled quotes. -/
  | triple {quote : Char} (start other : List Char) (hquote : quote = '"' ∨ quote = '\'') :
      Alike (.triple quote start) (.triple quote other)
  /-- Both are between slashes. -/
  | slashy (start other : List Char) : Alike (.slashy start) (.slashy other)
  /-- Both are expressions inside of as many braces. -/
  | template {depth : Nat} (start other : List Char) :
      Alike (.template depth start) (.template depth other)

/-- The number of characters that it takes at least to close what is open. -/
def reach : OpenLiteral → Nat
  | triple _ _ => 3
  | _ => 1

/-- Whether a literal is between single quotes. -/
def isSimple : OpenLiteral → Bool
  | simple _ _ => true
  | _ => false

/-- What is open behind a character in what is open before it, innermost first, and the text that is
left; none where the literal is broken off. What opens here keeps no text. -/
def advance (innermost : OpenLiteral) (outer : List OpenLiteral) (c : Char) (text : List Char) :
    Option (List OpenLiteral × List Char) :=
  match innermost with
  | simple quote _ =>
    if c = '\n' then none
    else if c = '\\' then some (innermost :: outer, text.tail)
    else if c = quote then some (outer, text)
    else if c = '$' ∧ quote = '"' ∧ text.head? = some '\x7b' then
      some (.template 1 [] :: innermost :: outer, text.tail)
    else some (innermost :: outer, text)
  | triple quote _ =>
    if c = quote ∧ [quote, quote].isPrefixOf text ∧ (text.drop 2).head? ≠ some quote then
      some (outer, text.drop 2)
    else some (innermost :: outer, text)
  | slashy _ =>
    if c = '/' then some (outer, text)
    else if c = '\\' ∧ text.head? = some '/' then some (innermost :: outer, text.tail)
    else if c = '$' ∧ text.head? = some '\x7b' then
      some (.template 1 [] :: innermost :: outer, text.tail)
    else some (innermost :: outer, text)
  | template depth start =>
    if c = '\x7b' then some (.template (depth + 1) start :: outer, text)
    else if c = '\x7d' then
      some (if depth ≤ 1 then outer else .template (depth - 1) start :: outer, text)
    else if c = '"' ∨ c = '\'' then
      if [c, c].isPrefixOf text then some (.triple c [] :: innermost :: outer, text.drop 2)
      else some (.simple c [] :: innermost :: outer, text)
    else some (innermost :: outer, text)

variable {innermost : OpenLiteral} {outer next : List OpenLiteral} {c : Char}
  {text later rest : List Char}

/-- A step leaves no more text than there was. -/
theorem advance_length (h : innermost.advance outer c text = some (next, later)) :
    later.length ≤ text.length := by
  unfold advance at h
  split at h <;> (repeat' split at h) <;> cases h <;> simp

/-- Literals that are alike are so the other way round. -/
theorem Alike.symm {literal other : OpenLiteral} (h : literal.Alike other) :
    other.Alike literal := by
  cases h with
  | simple _ _ hquote => exact .simple _ _ hquote
  | triple _ _ hquote => exact .triple _ _ hquote
  | slashy => exact .slashy _ _
  | template => exact .template _ _

/-- Literals that are alike to others are alike to themselves. -/
theorem Alike.self {literal other : OpenLiteral} (h : literal.Alike other) :
    literal.Alike literal := by
  cases h with
  | simple _ _ hquote => exact .simple _ _ hquote
  | triple _ _ hquote => exact .triple _ _ hquote
  | slashy => exact .slashy _ _
  | template => exact .template _ _

/-- What is open in a scan is alike to itself, if it is alike to anything. -/
theorem forall₂_self {opened other : List OpenLiteral} (h : List.Forall₂ Alike opened other) :
    List.Forall₂ Alike opened opened := by
  induction h with
  | nil => exact .nil
  | cons hliteral _ ih => exact .cons hliteral.self ih

/-- A literal between tripled quotes that is alike to another one has a quote to it. -/
theorem Alike.quote_of_triple {quote : Char} {start : List Char} {other : OpenLiteral}
    (h : (OpenLiteral.triple quote start).Alike other) : quote = '"' ∨ quote = '\'' := by
  cases h
  assumption

end OpenLiteral

open OpenLiteral

/-- Everything that is open takes its characters to close. -/
theorem closeLiterals_reach {opened : List OpenLiteral} {text rest : List Char}
    (h : closeLiterals opened text = .ok rest) :
    rest.length + (opened.map OpenLiteral.reach).sum ≤ text.length := by
  fun_induction closeLiterals opened text
  all_goals first
    | (cases h; simp)
    | cases h
    | (rename_i ih; have := ih h; simp [OpenLiteral.reach] at this ⊢; omega)

/-- A text that goes on behind its first character starts with that character. -/
theorem append_eq_cons {body rest text : List Char} {c : Char} (h : body ++ rest = c :: text)
    (hlength : rest.length ≤ text.length) : ∃ later, body = c :: later ∧ later ++ rest = text := by
  cases body with
  | nil =>
    rw [List.nil_append] at h
    rw [h, List.length_cons] at hlength
    omega
  | cons d later =>
    rw [List.cons_append, List.cons.injEq] at h
    exact ⟨later, by rw [h.1], h.2⟩

/-- A text that goes on behind its first two characters starts with these. -/
theorem append_eq_cons_cons {body rest text : List Char} {c d : Char}
    (h : body ++ rest = c :: d :: text) (hlength : rest.length ≤ text.length) :
    ∃ later, body = c :: d :: later ∧ later ++ rest = text := by
  obtain ⟨tail, rfl, htail⟩ := append_eq_cons h (by rw [List.length_cons]; omega)
  obtain ⟨later, rfl, hlater⟩ := append_eq_cons htail hlength
  exact ⟨later, rfl, hlater⟩

/-- A text of more than one character starts with two of them. -/
theorem exists_eq_cons_cons {text : List Char} (h : 1 < text.length) :
    ∃ d e after, text = d :: e :: after := by
  obtain ⟨d, tail, rfl⟩ := List.exists_cons_of_length_pos (Nat.zero_lt_of_lt h)
  obtain ⟨e, after, rfl⟩ := List.exists_cons_of_length_pos (Nat.lt_of_succ_lt_succ h)
  exact ⟨d, e, after, rfl⟩

section Scan

variable {innermost : OpenLiteral} {outer opened other : List OpenLiteral} {c : Char}
  {text rest : List Char}

/-- Where a scan ends does not depend on the texts that literals keep. -/
theorem closeLiterals_alike (hsame : List.Forall₂ Alike opened other)
    (h : closeLiterals opened text = .ok rest) : closeLiterals other text = .ok rest := by
  fun_induction closeLiterals opened text generalizing other
  case case1 =>
    cases hsame
    rwa [closeLiterals]
  case case18 start outer c hclose d after hescape hdollar ih =>
    have hnext := ih hsame h
    obtain ⟨_, _, hliteral, -, rfl⟩ := List.forall₂_cons_left_iff.mp hsame
    cases hliteral
    rw [closeLiterals.eq_def]
    simpa [hclose, hescape, hdollar] using hnext
  case case21 depth start outer c text hopen hclose hlast ih =>
    obtain ⟨_, _, hliteral, houter, rfl⟩ := List.forall₂_cons_left_iff.mp hsame
    cases hliteral
    rw [closeLiterals.eq_def]
    simpa [hopen, hclose, hlast] using ih (.cons (.template _ _) houter) h
  -- Every other branch reads the same characters, with what is alike open behind them.
  all_goals first
    | cases h
    | (obtain ⟨_, _, hliteral, houter, rfl⟩ := List.forall₂_cons_left_iff.mp hsame
       cases hliteral
       rw [closeLiterals.eq_def]
       simp_all [Alike.simple, Alike.triple, Alike.slashy, Alike.template])

/-- A scan that ends with either of two that are alike ends with the other one. -/
theorem closeLiterals_alike_iff (hsame : List.Forall₂ Alike opened other)
    (text rest : List Char) :
    closeLiterals opened text = .ok rest ↔ closeLiterals other text = .ok rest :=
  ⟨closeLiterals_alike hsame, closeLiterals_alike (hsame.flip.imp fun _ _ => Alike.symm)⟩

/-- Where nothing is left to read, nothing that is open is closed. -/
theorem closeLiterals_nil (innermost : OpenLiteral) (outer : List OpenLiteral) (rest : List Char) :
    closeLiterals (innermost :: outer) [] ≠ .ok rest := by
  simp [closeLiterals]

/-- A scan goes on behind each step. -/
theorem closeLiterals_cons_iff
    (hopened : List.Forall₂ Alike (innermost :: outer) (innermost :: outer)) :
    closeLiterals (innermost :: outer) (c :: text) = .ok rest ↔
      ∃ next ∈ innermost.advance outer c text, closeLiterals next.1 next.2 = .ok rest := by
  have hnil := closeLiterals_nil innermost outer rest
  rw [closeLiterals.eq_def]
  cases innermost with
  | simple quote start =>
    by_cases hline : c = '\n'
    · simp [advance, hline]
    by_cases hescape : c = '\\'
    · cases text <;> simp [advance, hescape, hnil]
    by_cases hclose : c = quote
    · subst hclose
      simp [advance, hline, hescape]
    by_cases hdollar : c = '$' ∧ quote = '"'
    · obtain ⟨rfl, rfl⟩ := hdollar
      cases text with
      | nil => simp [advance, hnil]
      | cons d after =>
        have htemplate := closeLiterals_alike_iff (.cons (@Alike.template 1 start []) hopened)
          after rest
        by_cases hbrace : d = '\x7b' <;> simp [advance, hbrace, htemplate]
    · simp [advance, hline, hescape, hclose, hdollar, ← and_assoc]
  | triple quote start =>
    rcases text with _ | ⟨d, _ | ⟨e, after⟩⟩
    · simp [advance, closeLiterals]
    · simp [advance, closeLiterals]
    · by_cases hclose : quote = c ∧ quote = d ∧ quote = e ∧ ¬ after.head? = some quote
      · obtain ⟨rfl, rfl, rfl, hhead⟩ := hclose
        simp [advance, hhead]
      · simp [advance, hclose, and_assoc, eq_comm (b := quote)]
  | slashy start =>
    by_cases hclose : c = '/'
    · simp [advance, hclose]
    cases text with
    | nil => simp [advance, hclose, hnil]
    | cons d after =>
      have htemplate := closeLiterals_alike_iff (.cons (@Alike.template 1 start []) hopened) after
        rest
      by_cases hescape : c = '\\' ∧ d = '/'
      · simp [advance, hescape]
      by_cases hbrace : c = '$' ∧ d = '\x7b'
      · simp [advance, hbrace, htemplate]
      · simp [advance, hclose, hescape, hbrace]
  | template depth start =>
    by_cases hopen : c = '\x7b'
    · simp [advance, hopen]
    by_cases hclose : c = '\x7d'
    · by_cases hlast : depth ≤ 1 <;> simp [advance, hclose, hlast]
    by_cases hquote : c = '"' ∨ c = '\''
    · have htriple (later : List Char) := closeLiterals_alike_iff
        (.cons (.triple (c :: text) [] hquote) hopened) later rest
      have hsimple (later : List Char) := closeLiterals_alike_iff
        (.cons (.simple (c :: text) [] hquote) hopened) later rest
      rcases text with _ | ⟨d, _ | ⟨e, after⟩⟩
      · simp [advance, hopen, hclose, hquote, hsimple]
      · simp [advance, hopen, hclose, hquote, hsimple]
      · by_cases hopens : c = d ∧ c = e
        · obtain ⟨rfl, rfl⟩ := hopens
          simp [advance, hopen, hclose, hquote, htriple]
        · have hother : ¬ (d = c ∧ e = c) := by simpa [eq_comm] using hopens
          simp [advance, hopen, hclose, hquote, hopens, hother, hsimple]
    · simp [advance, hopen, hclose, hquote]

/-- What is open takes at least a character to close. -/
theorem closeLiterals_length (h : closeLiterals (innermost :: outer) text = .ok rest) :
    rest.length < text.length := by
  have hreach := closeLiterals_reach h
  have hpositive : 0 < innermost.reach := by cases innermost <;> simp [reach]
  rw [List.map_cons, List.sum_cons] at hreach
  omega

namespace OpenLiteral

/-- What is open stays alike to itself. -/
theorem advance_alike (hopened : List.Forall₂ Alike (innermost :: outer) (innermost :: outer))
    {next : List OpenLiteral × List Char} (h : innermost.advance outer c text = some next) :
    List.Forall₂ Alike next.1 next.1 := by
  obtain ⟨hinnermost, houter⟩ := List.forall₂_cons.mp hopened
  cases innermost with
  | simple quote start =>
    simp only [advance] at h
    split at h
    · cases h
    split at h
    · cases h
      exact hopened
    split at h
    · cases h
      exact houter
    split at h <;> cases h
    · exact .cons (.template _ _) hopened
    · exact hopened
  | triple quote start =>
    simp only [advance] at h
    split at h <;> cases h
    · exact houter
    · exact hopened
  | slashy start =>
    simp only [advance] at h
    split at h
    · cases h
      exact houter
    split at h
    · cases h
      exact hopened
    split at h <;> cases h
    · exact .cons (.template _ _) hopened
    · exact hopened
  | template depth start =>
    simp only [advance] at h
    split at h
    · cases h
      exact .cons (.template _ _) houter
    split at h
    · cases h
      split
      · exact houter
      · exact .cons (.template _ _) houter
    split at h
    · rename_i hquote
      split at h <;> cases h
      · exact .cons (.triple _ _ hquote) hopened
      · exact .cons (.simple _ _ hquote) hopened
    · cases h
      exact hopened

/-- A step inside of what is closed in front of some text is the same, whatever text may follow
instead. -/
theorem advance_follows {body later other : List Char} {next : List OpenLiteral}
    (hopened : List.Forall₂ Alike (innermost :: outer) (innermost :: outer))
    (hquotes : AddsNoQuote rest other)
    (h : innermost.advance outer c (body ++ rest) = some (next, later))
    (hclose : closeLiterals next later = .ok rest) :
    ∃ inside, later = inside ++ rest ∧
      innermost.advance outer c (body ++ other) = some (next, inside ++ other) := by
  have hreach := closeLiterals_reach hclose
  cases innermost with
  | simple quote start =>
    simp only [advance] at h ⊢
    split_ifs at h with hline hescape hend hdollar <;> cases h
    · cases body with
      | nil => exact absurd (closeLiterals_length hclose) (by simp)
      | cons d inside => exact ⟨inside, rfl, by simp [hescape]⟩
    · exact ⟨body, rfl, by rw [if_neg hline, if_neg hescape, if_pos hend]⟩
    · cases body with
      | nil => exact absurd (closeLiterals_length hclose) (by simp)
      | cons d inside =>
        obtain ⟨rfl, rfl, hbrace⟩ := hdollar
        exact ⟨inside, rfl, by simpa using hbrace⟩
    · cases body with
      | nil => exact absurd (closeLiterals_length hclose) (by simp)
      | cons d inside =>
        exact ⟨d :: inside, rfl, by
          rw [if_neg hline, if_neg hescape, if_neg hend, if_neg (by simpa using hdollar)]⟩
  | triple quote start =>
    have hquote := (List.forall₂_cons.mp hopened).1.quote_of_triple
    simp only [advance] at h ⊢
    split_ifs at h with hend <;> cases h
    · have hlength := (List.isPrefixOf_iff_prefix.mp hend.2.1).length_le
      have hlong : 1 < body.length := by
        simp only [List.length_drop, List.length_append, List.length_cons] at hreach hlength
        omega
      obtain ⟨d, e, inside, rfl⟩ := exists_eq_cons_cons hlong
      refine ⟨inside, rfl, if_pos ⟨hend.1, by simpa using hend.2.1, ?_⟩⟩
      cases inside with
      | nil => exact hquotes _ hquote hend.2.2
      | cons => exact hend.2.2
    · have hlong : 2 < body.length := by
        simp only [List.map_cons, List.sum_cons, reach, List.length_append] at hreach
        omega
      obtain ⟨d, e, inside, rfl⟩ := exists_eq_cons_cons (Nat.lt_of_succ_lt hlong)
      cases inside with
      | nil => simp at hlong
      | cons f inside => exact ⟨_, rfl, if_neg (by simpa using hend)⟩
  | slashy start =>
    simp only [advance] at h ⊢
    split_ifs at h with hend hescape hdollar <;> cases h
    · exact ⟨body, rfl, by simp [hend]⟩
    · cases body with
      | nil => exact absurd (closeLiterals_length hclose) (by simp)
      | cons d inside =>
        obtain ⟨rfl, hslash⟩ := hescape
        exact ⟨inside, rfl, by simpa using hslash⟩
    · cases body with
      | nil => exact absurd (closeLiterals_length hclose) (by simp)
      | cons d inside =>
        obtain ⟨rfl, hbrace⟩ := hdollar
        exact ⟨inside, rfl, by simpa using hbrace⟩
    · cases body with
      | nil => exact absurd (closeLiterals_length hclose) (by simp)
      | cons d inside =>
        exact ⟨d :: inside, rfl, by
          rw [if_neg hend, if_neg (by simpa using hescape), if_neg (by simpa using hdollar)]⟩
  | template depth start =>
    simp only [advance] at h ⊢
    split_ifs at h with hopen hend hlast hquote hopens <;> cases h
    · exact ⟨body, rfl, by simp [hopen]⟩
    · exact ⟨body, rfl, by simp [hend, hlast]⟩
    · exact ⟨body, rfl, by simp [hend, hlast]⟩
    · have hlength := (List.isPrefixOf_iff_prefix.mp hopens).length_le
      have hlong : 1 < body.length := by
        simp only [List.map_cons, List.sum_cons, reach, List.length_drop, List.length_append,
          List.length_cons] at hreach hlength
        omega
      obtain ⟨d, e, inside, rfl⟩ := exists_eq_cons_cons hlong
      rw [if_neg hopen, if_neg hend, if_pos hquote, if_pos (by simpa using hopens)]
      exact ⟨inside, rfl, rfl⟩
    · have hlong : 1 < body.length := by
        simp only [List.map_cons, List.sum_cons, reach, List.length_append] at hreach
        omega
      obtain ⟨d, e, inside, rfl⟩ := exists_eq_cons_cons hlong
      rw [if_neg hopen, if_neg hend, if_pos hquote, if_neg (by simpa using hopens)]
      exact ⟨_, rfl, rfl⟩
    · exact ⟨body, rfl, by rw [if_neg hopen, if_neg hend, if_neg hquote]⟩

end OpenLiteral

/-- What is open is closed by the same characters, whatever text may follow. -/
theorem closeLiterals_follows {body next : List Char}
    (hsame : List.Forall₂ Alike opened other) (hquotes : AddsNoQuote rest next)
    (h : closeLiterals opened (body ++ rest) = .ok rest) :
    closeLiterals other (body ++ next) = .ok next := by
  refine closeLiterals_alike hsame ?_
  have hopened := forall₂_self hsame
  clear hsame
  induction hlength : body.length using Nat.strongRecOn generalizing opened body with
  | ind length ih =>
    subst hlength
    match opened, body with
    | [], body =>
      obtain rfl : body = [] := by simpa [closeLiterals] using h
      rw [List.nil_append, closeLiterals]
    | innermost :: outer, [] => exact absurd (closeLiterals_length h) (Nat.lt_irrefl _)
    | innermost :: outer, c :: body =>
      rw [List.cons_append, closeLiterals_cons_iff hopened] at h ⊢
      obtain ⟨⟨step, later⟩, hnext, hclose⟩ := h
      have hlength := advance_length hnext
      have halike := advance_alike hopened hnext
      obtain ⟨inside, rfl, hstep⟩ := advance_follows hopened hquotes hnext hclose
      simp only [List.length_append] at hlength
      exact ⟨_, hstep, ih inside.length (by rw [List.length_cons]; omega) hclose halike rfl⟩

end Scan

/-- Two quotes more open a literal between tripled quotes. -/
theorem afterString_cons (quote d : Char) (text : List Char) :
    afterString quote (d :: text) =
      if d == quote && text.head? == some quote then
        closeLiterals [.triple quote (quote :: d :: text)] text.tail
      else closeLiterals [.simple quote (quote :: d :: text)] (d :: text) := by
  cases text <;> simp [afterString]

/-- A quoted literal has a quote at its end. -/
theorem afterString_length {quote : Char} {text rest : List Char}
    (h : afterString quote text = .ok rest) : rest.length < text.length := by
  cases text with
  | nil => simp [afterString, closeLiterals] at h
  | cons d text =>
    rw [afterString_cons] at h
    split at h <;> have hshorter := closeLiterals_length h <;> simp at hshorter ⊢ <;> omega

/-- A quoted literal ends in the same place, whatever text may follow. -/
theorem afterString_follows {quote : Char} {body rest next : List Char}
    (hquote : quote = '"' ∨ quote = '\'') (hquotes : AddsNoQuote rest next)
    (h : afterString quote (body ++ rest) = .ok rest) :
    afterString quote (body ++ next) = .ok next := by
  cases body with
  | nil => exact (Nat.lt_irrefl _ (afterString_length h)).elim
  | cons d later =>
    rw [List.cons_append, afterString_cons] at h ⊢
    split at h
    · rename_i hopens
      have hreach := closeLiterals_reach h
      cases later with
      | nil =>
        simp [OpenLiteral.reach] at hreach
        omega
      | cons e later =>
        rw [List.cons_append, List.tail_cons] at h
        rw [List.cons_append, List.head?_cons] at hopens ⊢
        rw [if_pos hopens]
        exact closeLiterals_follows (.cons (.triple _ _ hquote) .nil) hquotes h
    · rename_i hopens
      have hstays : ¬ (d == quote && (later ++ next).head? == some quote) = true := by
        cases later with
        | nil =>
          simp only [Bool.and_eq_true, beq_iff_eq, not_and] at hopens ⊢
          intro hd
          exact hquotes _ hquote (hopens hd)
        | cons => exact hopens
      rw [if_neg hstays]
      rw [← List.cons_append] at h ⊢
      exact closeLiterals_follows (.cons (.simple _ _ hquote) .nil) hquotes h

/-- An identifier between backticks ends in the same place, whatever follows. -/
theorem afterBacktick_follows {start other body rest next : List Char}
    (h : afterBacktick start (body ++ rest) = .ok rest) :
    afterBacktick other (body ++ next) = .ok next := by
  generalize htext : body ++ rest = text at h
  fun_induction afterBacktick start text generalizing body with
  | case3 c text hline hclose =>
    cases h
    obtain ⟨later, rfl, hlater⟩ := append_eq_cons htext (Nat.le_refl _)
    obtain rfl : later = [] := by simpa using hlater
    rw [List.singleton_append, afterBacktick, if_neg hline, if_pos hclose]
  | case4 c text hline hclose ih =>
    have hsuffix := (afterBacktick_suffix h).length_le
    obtain ⟨later, rfl, hlater⟩ := append_eq_cons htext hsuffix
    rw [List.cons_append, afterBacktick, if_neg hline, if_neg hclose]
    exact ih hlater h
  | _ => cases h

/-- A comment between delimiters has a delimiter at its end. -/
theorem afterBlockComment_length {nests : Bool} {start text rest : List Char} {depth : Nat}
    (h : afterBlockComment nests start depth text = .ok rest) : rest.length + 2 ≤ text.length := by
  fun_induction afterBlockComment nests start depth text
  all_goals first
    | (cases h; simp)
    | cases h
    | (rename_i ih; have := ih h; simp at this ⊢; omega)

/-- A comment between delimiters ends in the same place, whatever follows. -/
theorem afterBlockComment_follows {nests : Bool} {start other body rest next : List Char}
    {depth : Nat}
    (h : afterBlockComment nests start depth (body ++ rest) = .ok rest) :
    afterBlockComment nests other depth (body ++ next) = .ok next := by
  generalize htext : body ++ rest = text at h
  fun_induction afterBlockComment nests start depth text generalizing body with
  | case3 depth c d text hcloses hlast =>
    cases h
    obtain ⟨tail, rfl, htail⟩ := append_eq_cons htext (by simp)
    obtain ⟨later, rfl, hlater⟩ := append_eq_cons htail (Nat.le_refl _)
    obtain rfl : later = [] := by simpa using hlater
    simp [afterBlockComment, hcloses, hlast]
  | case4 depth c d text hcloses hlast ih =>
    have hlength := afterBlockComment_length h
    obtain ⟨tail, rfl, htail⟩ := append_eq_cons htext (by simp; omega)
    obtain ⟨later, rfl, hlater⟩ := append_eq_cons htail (by omega)
    have hnext := ih hlater h
    simpa [afterBlockComment, hcloses, hlast] using hnext
  | case5 depth c d text hcloses hnests ih =>
    have hlength := afterBlockComment_length h
    obtain ⟨tail, rfl, htail⟩ := append_eq_cons htext (by simp; omega)
    obtain ⟨later, rfl, hlater⟩ := append_eq_cons htail (by omega)
    have hnext := ih hlater h
    simpa [afterBlockComment, hcloses, hnests] using hnext
  | case6 depth c d text hcloses hnests ih =>
    have hlength := afterBlockComment_length h
    simp only [List.length_cons] at hlength
    obtain ⟨tail, rfl, htail⟩ := append_eq_cons htext (by simp; omega)
    obtain ⟨later, rfl, hlater⟩ := append_eq_cons htail (by omega)
    have hnext := ih htail h
    simpa [afterBlockComment, hcloses, hnests] using hnext
  | _ => cases h

end CorpusFacts.Script
