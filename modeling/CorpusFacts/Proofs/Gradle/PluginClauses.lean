import CorpusFacts.Proofs.Gradle.DeclarationReaders
import CorpusFacts.Proofs.Gradle.PluginParts
import CorpusFacts.Proofs.Text.Splitting

/-!
# Clauses of plugin entries

What an entry says of its plugin stands in clauses, a version and a flag. A clause is looked for in
all that follows the name of the plugin: behind any blank and any dot, between quotes as well. So
the first flag may stand in the text of a version.
-/

namespace CorpusFacts

namespace Gradle

/-! ## Between a keyword and its argument -/

section Gaps

variable {text gap : List Char}

/-- What may stand between a keyword and its argument: blanks, and perhaps a parenthesis among
them. -/
def IsGap (gap : List Char) : Prop :=
  ∃ before parens after, (∀ c ∈ before, Text.isBlank c = true) ∧
    (∀ c ∈ after, Text.isBlank c = true) ∧ gap = before ++ (opening parens ++ after)

theorem isGap_of_blanks (h : ∀ c ∈ gap, Text.isBlank c = true) : IsGap gap :=
  ⟨gap, false, [], h, by simp, by simp [opening]⟩

theorem isGap_open : IsGap ['('] :=
  ⟨[], true, [], by simp, by simp, rfl⟩

/-- Such characters are blanks or a parenthesis. -/
theorem IsGap.isBlank (h : IsGap gap) : ∀ c ∈ gap, Text.isBlank c = true ∨ c = '(' := by
  obtain ⟨before, parens, after, hbefore, hafter, rfl⟩ := h
  have hopening : ∀ c ∈ opening parens, c = '(' := by cases parens <;> simp [opening]
  intro c hc
  rcases List.mem_append.mp hc with hc | hc
  · exact .inl (hbefore c hc)
  · exact (List.mem_append.mp hc).symm.imp (hafter c) (hopening c)

theorem isQuote_of_isBlank {c : Char} (h : Text.isBlank c = true) : isQuote c = false := by
  by_contra hquote
  simp only [Bool.not_eq_false, isQuote, Bool.or_eq_true, beq_iff_eq] at hquote
  rcases hquote with rfl | rfl <;> exact absurd h (by decide)

theorem IsGap.isQuote (h : IsGap gap) : ∀ c ∈ gap, isQuote c = false := by
  intro c hc
  rcases h.isBlank c hc with hblank | rfl
  · exact isQuote_of_isBlank hblank
  · rfl

/-- It is skipped. -/
theorem IsGap.skipOpenAmongBlanks_append (h : IsGap gap)
    (hblank : ∀ c ∈ text.head?, Text.isBlank c = false) (hopen : text.head? ≠ some '(') :
    skipOpenAmongBlanks (gap ++ text) = text := by
  obtain ⟨before, parens, after, hbefore, hafter, rfl⟩ := h
  have hafterText := Text.trimStart_append hafter hblank
  cases parens with
  | true =>
    have hstart : Text.trimStart (before ++ '(' :: (after ++ text)) = '(' :: (after ++ text) :=
      Text.trimStart_append hbefore (by rintro _ ⟨⟩; decide)
    have hskip : skipOpen ('(' :: (after ++ text)) = after ++ text := rfl
    rw [opening, if_pos rfl, List.append_assoc, List.singleton_append, List.cons_append,
      skipOpenAmongBlanks, hstart, hskip, hafterText]
  | false =>
    have hall : ∀ c ∈ before ++ after, Text.isBlank c = true :=
      List.forall_mem_append.mpr ⟨hbefore, hafter⟩
    have hskip : skipOpen text = text := skipOpen_opening hopen false
    rw [opening, if_neg (by simp), List.nil_append, skipOpenAmongBlanks,
      Text.trimStart_append hall hblank, hskip, Text.trimStart_of_head hblank]

/-- Nothing else is skipped. -/
theorem exists_skipOpenAmongBlanks (text : List Char) :
    ∃ gap, IsGap gap ∧ text = gap ++ skipOpenAmongBlanks text := by
  have hblanks (text : List Char) : (∀ c ∈ text.takeWhile Text.isBlank, Text.isBlank c = true) ∧
      text = text.takeWhile Text.isBlank ++ Text.trimStart text :=
    ⟨fun c hc => List.mem_takeWhile_imp hc, List.takeWhile_append_dropWhile.symm⟩
  obtain ⟨hbefore, htext⟩ := hblanks text
  obtain ⟨hafter, hinner⟩ := hblanks (skipOpen (Text.trimStart text))
  obtain ⟨parens, hopen⟩ := exists_skipOpen (Text.trimStart text)
  refine ⟨_, ⟨_, parens, _, hbefore, hafter, rfl⟩, ?_⟩
  rw [skipOpenAmongBlanks, List.append_assoc, List.append_assoc, ← hinner, ← hopen]
  exact htext

end Gaps

/-! ## Looking for a clause -/

section Search

/-- The characters that a clause may stand behind: blanks and dots. -/
def startsClause (c : Char) : Bool :=
  Text.isBlank c || c == '.'

/-- What may stand between a name and a clause: nothing, or blanks and another such character. -/
inductive IsLead : List Char → Prop
  /-- Nothing. -/
  | none : IsLead []
  /-- Blanks and one more character. -/
  | some {blanks : List Char} {last : Char} (hblanks : ∀ c ∈ blanks, Text.isBlank c = true)
      (hlast : startsClause last = true) : IsLead (blanks ++ [last])

theorem startsClause_of_isBlank {c : Char} (h : Text.isBlank c = true) : startsClause c = true := by
  simp [startsClause, h]

theorem IsLead.starts {lead : List Char} (h : IsLead lead) : ∀ c ∈ lead, startsClause c = true := by
  cases h with
  | none => simp
  | some hblanks hlast =>
    exact List.forall_mem_append.mpr
      ⟨fun c hc => startsClause_of_isBlank (hblanks c hc), by simpa using hlast⟩

theorem isLead_singleton {last : Char} (hlast : startsClause last = true) : IsLead [last] :=
  .some (List.forall_mem_nil _) hlast

theorem isLead_of_blanks {blanks : List Char} (h : ∀ c ∈ blanks, Text.isBlank c = true) :
    IsLead blanks := by
  rcases List.eq_nil_or_concat' blanks with rfl | ⟨init, last, rfl⟩
  · exact .none
  · obtain ⟨hinit, hlast⟩ := List.forall_mem_append.mp h
    exact .some hinit (startsClause_of_isBlank (hlast last (List.mem_singleton_self last)))

theorem IsLead.append {blanks lead : List Char} (h : IsLead lead)
    (hblanks : ∀ c ∈ blanks, Text.isBlank c = true) : IsLead (blanks ++ lead) := by
  cases h with
  | none => exact isLead_of_blanks (by simpa using hblanks)
  | some hmore hlast =>
    rw [← List.append_assoc]
    exact .some (List.forall_mem_append.mpr ⟨hblanks, hmore⟩) hlast

variable {α : Type}

/-- What is found of a clause behind a text: what stands in front of it, with that text, and the
rest. -/
def foundBehind (before : List Char) (clause : List Char × α × List Char) :
    List Char × α × List Char :=
  (before ++ clause.1, clause.2)

/-- Clauses of a kind begin with one letter. -/
structure BeginsWithLetter (clause? : List Char → Option (α × List Char)) (letter : Char) :
    Prop where
  /-- None stands behind the letter. -/
  isLetter : startsClause letter = false
  /-- Nothing else is read. -/
  eq_none : ∀ text, text.head? ≠ some letter → clause? text = none

variable {clause? : List Char → Option (α × List Char)} {letter : Char}
  {before lead text after : List Char} {value : α}

theorem laterClause?_hit {c : Char} (hc : startsClause c = true)
    (h : clause? text = some (value, after)) :
    laterClause? clause? (c :: text) = some ([], value, after) := by
  have hclause : (if Text.isBlank c || c == '.' then clause? text else none) =
      some (value, after) := (if_pos hc).trans h
  rw [laterClause?_cons, hclause]

/-- A character that no clause stands behind is passed over. -/
theorem laterClause?_miss {c : Char} (h : startsClause c = true → clause? text = none) :
    laterClause? clause? (c :: text) = (laterClause? clause? text).map (foundBehind [c]) := by
  have hclause : (if Text.isBlank c || c == '.' then clause? text else none) = none := by
    split
    · rename_i hc
      exact h hc
    · rfl
  rw [laterClause?_cons, hclause]
  cases laterClause? clause? text <;> rfl

theorem map_foundBehind (found : Option (List Char × α × List Char)) (first next : List Char) :
    (found.map (foundBehind next)).map (foundBehind first) =
      found.map (foundBehind (first ++ next)) := by
  cases found with
  | none => rfl
  | some found => simp [foundBehind]

variable (hletter : BeginsWithLetter clause? letter)
include hletter

/-- A text without the letter is passed over. -/
theorem laterClause?_append (hbefore : letter ∉ before) (htext : text.head? ≠ some letter) :
    laterClause? clause? (before ++ text) =
      (laterClause? clause? text).map (foundBehind before) := by
  induction before with
  | nil => cases hfound : laterClause? clause? text <;> simp [hfound, foundBehind]
  | cons c before ih =>
    have hrest : letter ∉ before := fun hmem => hbefore (List.mem_cons_of_mem c hmem)
    have hnext : (before ++ text).head? ≠ some letter := by
      cases before with
      | nil => exact htext
      | cons d before =>
        rintro ⟨⟩
        exact hrest (List.mem_cons_self ..)
    rw [List.cons_append, laterClause?_miss fun _ => hletter.eq_none _ hnext, ih hrest,
      map_foundBehind]
    rfl

/-- Where a clause does not come first, it comes later. -/
theorem firstClause?_of_head (htext : text.head? ≠ some letter) :
    firstClause? clause? text = laterClause? clause? text := by
  rw [firstClause?, hletter.eq_none text htext]

theorem firstClause?_eq_none (htext : letter ∉ text) : firstClause? clause? text = none := by
  have hhead : text.head? ≠ some letter := fun h => htext (List.mem_of_mem_head? h)
  have hend : ([] : List Char).head? ≠ some letter := by simp
  have hlater := laterClause?_append hletter htext hend
  rw [List.append_nil] at hlater
  rw [firstClause?_of_head hletter hhead, hlater]
  rfl

theorem notMem_of_starts (h : ∀ c ∈ before, startsClause c = true) : letter ∉ before :=
  fun hmem => Bool.false_ne_true (hletter.isLetter.symm.trans (h letter hmem))

/-- A clause is found behind blanks and dots. -/
theorem exists_firstClause?_lead (hlead : IsLead lead) (h : clause? text = some (value, after)) :
    ∃ blanks, (∀ c ∈ blanks, Text.isBlank c = true) ∧
      firstClause? clause? (lead ++ text) = some (blanks, value, after) ∧
      (lead ≠ [] → laterClause? clause? (lead ++ text) = some (blanks, value, after)) := by
  cases hlead with
  | none =>
    refine ⟨[], by simp, ?_, fun hne => absurd rfl hne⟩
    rw [List.nil_append, firstClause?, h]
  | @some blanks last hblanks hlast =>
    have hstarts := (IsLead.some hblanks hlast).starts
    have hnotMem := notMem_of_starts hletter hstarts
    have hnext : ([last] ++ text).head? ≠ some letter := by
      rintro ⟨⟩
      exact hnotMem (by simp)
    have hlater : laterClause? clause? (blanks ++ ([last] ++ text)) =
        some (blanks, value, after) := by
      rw [laterClause?_append hletter (fun hmem => hnotMem (List.mem_append_left _ hmem)) hnext,
        List.singleton_append, laterClause?_hit hlast h]
      simp [foundBehind]
    have hhead : (blanks ++ ([last] ++ text)).head? ≠ some letter := by
      cases blanks with
      | nil => exact hnext
      | cons c blanks =>
        rintro ⟨⟩
        exact hnotMem (List.mem_cons_self ..)
    rw [List.append_assoc]
    exact ⟨blanks, hblanks, (firstClause?_of_head hletter hhead).trans hlater, fun _ => hlater⟩

end Search

/-! ## Versions and flags -/

section Clauses

variable {text rest : List Char} {flag : Bool}

/-- How a flag is spelled. -/
def flagText (flag : Bool) : List Char :=
  if flag then "true".toList else "false".toList

theorem beginsWithLetter_versionClause? : BeginsWithLetter versionClause? 'v' where
  isLetter := by decide
  eq_none text h := by
    have hnone : Text.after? "version".toList text = none := by
      refine Option.eq_none_iff_forall_ne_some.mpr fun rest hrest => ?_
      rw [Text.after?_eq_some_iff.mp hrest] at h
      exact h rfl
    rw [versionClause?, hnone]
    rfl

theorem beginsWithLetter_applyClause? : BeginsWithLetter applyClause? 'a' where
  isLetter := by decide
  eq_none text h := by
    have hnone : Text.after? "apply".toList text = none := by
      refine Option.eq_none_iff_forall_ne_some.mpr fun rest hrest => ?_
      rw [Text.after?_eq_some_iff.mp hrest] at h
      exact h rfl
    rw [applyClause?, hnone]
    rfl

/-- A text begins with a flag: the word `apply`, blanks and perhaps a parenthesis, and the flag. -/
def BeginsWithFlag (flag : Bool) (text : List Char) : Prop :=
  ∃ gap rest, IsGap gap ∧ text = "apply".toList ++ (gap ++ (flagText flag ++ rest))

/-- A flag that a text begins with is read. -/
theorem applyClause?_append {gap : List Char} (hgap : IsGap gap) (flag : Bool)
    (rest : List Char) :
    applyClause? ("apply".toList ++ (gap ++ (flagText flag ++ rest))) =
      some (flag, skipCloseAfterBlanks rest) := by
  have hkeyword : Text.after? "apply".toList ("apply".toList ++ (gap ++ (flagText flag ++ rest))) =
      some (gap ++ (flagText flag ++ rest)) := Text.after?_eq_some_iff.mpr rfl
  have hblank : ∀ c ∈ (flagText flag ++ rest).head?, Text.isBlank c = false := by
    cases flag <;> (rintro _ ⟨⟩; decide)
  have hopen : (flagText flag ++ rest).head? ≠ some '(' := by
    cases flag <;> rintro ⟨⟩
  simp only [applyClause?, hkeyword, Option.bind_eq_bind, Option.bind_some,
    hgap.skipOpenAmongBlanks_append hblank hopen]
  cases flag with
  | true =>
    have htrue : Text.after? "true".toList (flagText true ++ rest) = some rest :=
      Text.after?_eq_some_iff.mpr rfl
    rw [htrue]
    rfl
  | false =>
    have htrue : Text.after? "true".toList (flagText false ++ rest) = none := rfl
    have hfalse : Text.after? "false".toList (flagText false ++ rest) = some rest :=
      Text.after?_eq_some_iff.mpr rfl
    rw [htrue, hfalse]
    rfl

/-- A flag is read from a text that begins with it, and from no other. -/
theorem exists_applyClause?_iff :
    (∃ after, applyClause? text = some (flag, after)) ↔ BeginsWithFlag flag text := by
  constructor
  · rintro ⟨after, h⟩
    simp only [applyClause?, Option.bind_eq_bind, Option.bind_eq_some_iff, Option.pure_def,
      Option.some.injEq, Prod.mk.injEq, Option.orElse_eq_orElse, Option.orElse_eq_or,
      Option.or_eq_some_iff, Option.map_eq_some_iff] at h
    obtain ⟨inner, hinner, ⟨found, rest⟩, hflag, rfl, -⟩ := h
    obtain ⟨gap, hgap, hskip⟩ := exists_skipOpenAmongBlanks inner
    refine ⟨gap, rest, hgap, ?_⟩
    have hfound : skipOpenAmongBlanks inner = flagText found ++ rest := by
      rcases hflag with ⟨_, htrue, heq⟩ | ⟨-, _, hfalse, heq⟩
      · obtain ⟨rfl, rfl⟩ := Prod.mk.inj heq
        exact Text.after?_eq_some_iff.mp htrue
      · obtain ⟨rfl, rfl⟩ := Prod.mk.inj heq
        exact Text.after?_eq_some_iff.mp hfalse
    rw [Text.after?_eq_some_iff.mp hinner, ← hfound, ← hskip]
  · rintro ⟨gap, rest, hgap, rfl⟩
    exact ⟨_, applyClause?_append hgap flag rest⟩

/-- What stands behind a quote is no part of a flag in front of it. -/
theorem beginsWithFlag_append_quote {quote : Char} (hquote : isQuote quote = true)
    (rest : List Char) :
    BeginsWithFlag flag (text ++ quote :: rest) ↔ BeginsWithFlag flag text := by
  constructor
  · rintro ⟨gap, more, hgap, htext⟩
    have hplain : ∀ c ∈ "apply".toList ++ (gap ++ flagText flag), (!isQuote c) = true := by
      have hkeyword : ∀ c ∈ "apply".toList, isQuote c = false := eq_false_of_any rfl
      have hflag : ∀ c ∈ flagText flag, isQuote c = false := by
        cases flag <;> exact eq_false_of_any rfl
      simp only [List.forall_mem_append, Bool.not_eq_true']
      exact ⟨hkeyword, hgap.isQuote, hflag⟩
    have hwhole : text ++ quote :: rest = ("apply".toList ++ (gap ++ flagText flag)) ++ more := by
      rw [htext]
      simp
    obtain ⟨inner, rfl, -⟩ :=
      exists_of_append_quote (p := (!isQuote ·)) hwhole (by simp [hquote]) hplain
    exact ⟨gap, inner, hgap, by simp⟩
  · rintro ⟨gap, more, hgap, rfl⟩
    exact ⟨gap, more ++ quote :: rest, hgap, by simp⟩

/-- The first flag that a text tells behind a blank or a dot. -/
inductive FirstFlag : List Char → Bool → Prop
  /-- It comes next. -/
  | here {c : Char} {text : List Char} {flag : Bool} (hc : startsClause c = true)
      (h : BeginsWithFlag flag text) : FirstFlag (c :: text) flag
  /-- It comes later. -/
  | later {c : Char} {text : List Char} {flag : Bool}
      (hc : startsClause c = true → ∀ other, ¬ BeginsWithFlag other text)
      (h : FirstFlag text flag) : FirstFlag (c :: text) flag

theorem applyClause?_eq_none {text : List Char} (h : ∀ other, ¬ BeginsWithFlag other text) :
    applyClause? text = none :=
  Option.eq_none_iff_forall_ne_some.mpr fun found hfound =>
    h found.1 (exists_applyClause?_iff.mp ⟨found.2, hfound⟩)

/-- The flag that is found behind the start of a text. -/
def laterFlag? (text : List Char) : Option Bool :=
  (laterClause? applyClause? text).map (·.2.1)

theorem laterFlag?_of_eq (before : List Char) {more : List Char}
    (h : laterClause? applyClause? (before ++ more) =
      (laterClause? applyClause? more).map (foundBehind before)) :
    laterFlag? (before ++ more) = laterFlag? more := by
  rw [laterFlag?, h, Option.map_map]
  rfl

section Quoted

variable {quote : Char} (hquote : isQuote quote = true)
include hquote

/-- In front of a quote the first flag is found that is told there. -/
theorem laterFlag?_of_firstFlag (h : FirstFlag text flag) (rest : List Char) :
    laterFlag? (text ++ quote :: rest) = some flag := by
  induction h with
  | here hc h =>
    obtain ⟨after, hread⟩ :=
      exists_applyClause?_iff.mpr ((beginsWithFlag_append_quote hquote rest).mpr h)
    rw [List.cons_append, laterFlag?, laterClause?_hit hc hread]
    rfl
  | @later c text _ hc _ ih =>
    have hnone : startsClause c = true → applyClause? (text ++ quote :: rest) = none :=
      fun hstarts => applyClause?_eq_none fun other hother =>
        hc hstarts other ((beginsWithFlag_append_quote hquote rest).mp hother)
    exact (laterFlag?_of_eq [c] (laterClause?_miss hnone)).trans ih

/-- Where no flag is told in front of a quote, it is looked for behind it. -/
theorem laterFlag?_of_no_flag (h : ∀ flag, ¬ FirstFlag text flag) (rest : List Char) :
    laterFlag? (text ++ quote :: rest) = laterFlag? (quote :: rest) := by
  induction text with
  | nil => rfl
  | cons c text ih =>
    have hc : startsClause c = true → ∀ other, ¬ BeginsWithFlag other text :=
      fun hstarts other hother => h other (.here hstarts hother)
    have hnone : startsClause c = true → applyClause? (text ++ quote :: rest) = none :=
      fun hstarts => applyClause?_eq_none fun other hother =>
        hc hstarts other ((beginsWithFlag_append_quote hquote rest).mp hother)
    exact (laterFlag?_of_eq [c] (laterClause?_miss hnone)).trans
      (ih fun flag hflag => h flag (.later hc hflag))

end Quoted

end Clauses

end Gradle

end CorpusFacts
