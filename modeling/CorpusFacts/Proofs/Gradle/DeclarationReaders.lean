import CorpusFacts.Gradle.Declaration
import Mathlib.Data.Bool.AllAny
import Mathlib.Data.List.TakeDrop
import Mathlib.Data.List.TakeWhile

/-!
# Readers of declarations

A declaration is written as the name of a configuration, in whatever case, and arguments behind it,
perhaps in parentheses. Texts are in quotes of either kind, and any blanks may stand around tokens;
without its blanks a declaration is the row of its tokens.

Each reader of a declaration takes the longest start of a text that it can take, so it reads a text
in one way only: characters of a kind up to the first other one, a word up to a keyword at its end
or behind an opening parenthesis, quotations from quote to quote.
-/

namespace CorpusFacts.Gradle

/-! ## How declarations are written -/

/-- ASCII letters. -/
def isLetter (c : Char) : Bool :=
  'a' ≤ c.toLower && c.toLower ≤ 'z'

theorem isLetter_cases {c : Char} (h : isLetter c = true) :
    ('a' ≤ c ∧ c ≤ 'z') ∨ ('A' ≤ c ∧ c ≤ 'Z') := by
  by_cases hupper : 'A' ≤ c ∧ c ≤ 'Z'
  · exact .inr hupper
  · have hlower : c.toLower = c := dif_neg hupper
    rw [isLetter, hlower, Bool.and_eq_true, decide_eq_true_eq, decide_eq_true_eq] at h
    exact .inl h

/-- Letters are word characters. -/
theorem isWord_of_isLetter {c : Char} (h : isLetter c = true) : Text.isWord c = true := by
  have hsmall : c.toNat < 128 := by
    rcases isLetter_cases h with ⟨-, hle⟩ | ⟨-, hle⟩ <;>
      exact Nat.lt_of_le_of_lt (Char.le_def.mp hle) (by decide)
  rw [Text.isWord, if_pos hsmall, Text.isAsciiAlphanumeric]
  rcases isLetter_cases h with ⟨hstart, hstop⟩ | ⟨hstart, hstop⟩ <;> simp [hstart, hstop]

/-- Keywords go by the lower case of letters. -/
theorem foldCase_of_isLetter {c : Char} (h : isLetter c = true) : foldCase c = c.toLower := by
  have hlong : c ≠ 'ſ' := by
    rintro rfl
    exact absurd h (by decide)
  have hkelvin : c ≠ '\u212a' := by
    rintro rfl
    exact absurd h (by decide)
  rw [foldCase, if_neg (by simpa using hlong), if_neg (by simpa using hkelvin)]

/-- A name is the usual spelling of a configuration but for the case of its letters. -/
structure Names (name : List Char) (configuration : String) : Prop where
  /-- The configuration is known. -/
  known : configuration ∈ configurations
  /-- The letters are the same. -/
  lower_eq : Text.asciiLower name = Text.asciiLower configuration.toList

theorem names_iff {name : List Char} {configuration : String} :
    Names name configuration ↔ configuration ∈ configurations ∧
      Text.asciiLower name = Text.asciiLower configuration.toList :=
  ⟨fun h => ⟨h.known, h.lower_eq⟩, fun h => ⟨h.1, h.2⟩⟩

instance (name : List Char) (configuration : String) : Decidable (Names name configuration) :=
  decidable_of_iff _ names_iff.symm

namespace Names

variable {name : List Char} {configuration : String}

theorem configuration?_eq (h : Names name configuration) :
    configuration? name = some configuration := by
  have husual : ∀ usual ∈ configurations, configuration? usual.toList = some usual := by
    decide +kernel
  rw [configuration?, h.lower_eq]
  exact husual configuration h.known

theorem letters (h : Names name configuration) : ∀ c ∈ name, isLetter c = true := by
  have husual : ∀ usual ∈ configurations,
      (Text.asciiLower usual.toList).all (fun c => 'a' ≤ c && c ≤ 'z') = true := by
    decide +kernel
  intro c hc
  refine List.all_eq_true.mp (husual configuration h.known) c.toLower ?_
  rw [← h.lower_eq]
  exact List.mem_map_of_mem hc

theorem words (h : Names name configuration) : ∀ c ∈ name, Text.isWord c = true :=
  fun c hc => isWord_of_isLetter (h.letters c hc)

theorem ne_nil (h : Names name configuration) : name ≠ [] := by
  have husual : ∀ usual ∈ configurations, Text.asciiLower usual.toList ≠ [] := by
    decide +kernel
  rintro rfl
  exact husual configuration h.known h.lower_eq.symm

/-- No configuration ends like a notation begins. -/
theorem not_suffix (h : Names name configuration) {keyword : String}
    (hkeyword : keyword ∈ ["group", "kotlin"]) :
    ¬ keyword.toList <:+ Text.asciiLower name := by
  have husual : ∀ keyword ∈ ["group", "kotlin"], ∀ usual ∈ configurations,
      ¬ keyword.toList <:+ Text.asciiLower usual.toList := by
    decide +kernel
  rw [h.lower_eq]
  exact husual keyword hkeyword configuration h.known

/-- A configuration that is run together with the word for the Kotlin library is none. -/
theorem configuration?_kotlin (h : Names name configuration) :
    configuration? (name ++ "kotlin".toList) = none := by
  have husual : ∀ usual ∈ configurations, ∀ other ∈ configurations,
      Text.asciiLower other.toList ≠ Text.asciiLower usual.toList ++ "kotlin".toList := by
    decide +kernel
  have hlower : Text.asciiLower (name ++ "kotlin".toList) =
      Text.asciiLower configuration.toList ++ "kotlin".toList := by
    rw [← h.lower_eq]
    exact List.map_append
  rw [configuration?, List.find?_eq_none]
  intro other hother
  rw [hlower, beq_iff_eq]
  exact husual configuration h.known other hother

end Names

/-- A text between two quotes of one kind. -/
structure Quotation where
  /-- The quotes. -/
  quote : Char
  /-- What they enclose. -/
  content : List Char
  /-- The quotes are quotes. -/
  isQuote_quote : isQuote quote = true

namespace Quotation

/-- A quotation with its quotes. -/
def text (quotation : Quotation) : List Char :=
  quotation.quote :: (quotation.content ++ [quotation.quote])

end Quotation

/-- A text that is not empty, of characters of a kind. -/
structure IsMadeOf (p : Char → Bool) (text : List Char) : Prop where
  /-- There are characters. -/
  ne_nil : text ≠ []
  /-- They are of the kind. -/
  all : ∀ c ∈ text, p c = true

theorem isMadeOf_iff {p : Char → Bool} {text : List Char} :
    IsMadeOf p text ↔ text ≠ [] ∧ text.all p = true := by
  rw [List.all_eq_true]
  exact ⟨fun h => ⟨h.ne_nil, h.all⟩, fun h => ⟨h.1, h.2⟩⟩

instance (p : Char → Bool) (text : List Char) : Decidable (IsMadeOf p text) :=
  decidable_of_iff _ isMadeOf_iff.symm

theorem IsMadeOf.imp {p q : Char → Bool} {text : List Char} (h : IsMadeOf p text)
    (hpq : ∀ c, p c = true → q c = true) : IsMadeOf q text :=
  ⟨h.ne_nil, fun c hc => hpq c (h.all c hc)⟩

/-- The tokens of arguments, in parentheses or as they are. -/
def inParens (parens : Bool) (tokens : List (List Char)) : List (List Char) :=
  if parens then ['('] :: (tokens ++ [[')']]) else tokens

/-- A text in parentheses or as it is. -/
def enclosed (parens : Bool) (text : List Char) : List Char :=
  if parens then '(' :: (text ++ [')']) else text

/-- What stands in front of the first argument. -/
def opening (parens : Bool) : List Char :=
  if parens then ['('] else []

/-- What stands behind the last argument. -/
def closing (parens : Bool) : List Char :=
  if parens then [')'] else []

theorem flatten_inParens (parens : Bool) (tokens : List (List Char)) :
    (inParens parens tokens).flatten = enclosed parens tokens.flatten := by
  cases parens <;> simp [inParens, enclosed]

theorem enclosed_append (parens : Bool) (text : List Char) :
    enclosed parens text = opening parens ++ (text ++ closing parens) := by
  cases parens with
  | true => rfl
  | false => exact (List.append_nil text).symm

theorem skipOpen_opening {text : List Char} (h : text.head? ≠ some '(') (parens : Bool) :
    skipOpen (opening parens ++ text) = text := by
  cases parens with
  | true => rfl
  | false =>
    rw [opening, if_neg (by simp), List.nil_append, skipOpen]
    rintro _ rfl
    exact h rfl

/-- Behind the opening parenthesis stands the text and what closes it. -/
theorem skipOpen_enclosed {text : List Char} (h : text.head? ≠ some '(') (parens : Bool) :
    skipOpen (enclosed parens text) = text ++ closing parens := by
  have hhead : (text ++ closing parens).head? ≠ some '(' := by
    cases text with
    | nil => cases parens <;> simp [closing]
    | cons c text => exact h
  rw [enclosed_append, skipOpen_opening hhead]

/-- Nothing else is skipped. -/
theorem exists_skipOpen (text : List Char) : ∃ parens, text = opening parens ++ skipOpen text := by
  unfold skipOpen
  split
  · exact ⟨true, rfl⟩
  · exact ⟨false, rfl⟩

theorem isClosed_iff {text : List Char} :
    isClosed text = true ↔ ∃ parens, text = closing parens := by
  constructor
  · intro h
    unfold isClosed at h
    split at h
    · exact ⟨false, rfl⟩
    · exact ⟨true, rfl⟩
    · cases h
  · rintro ⟨parens, rfl⟩
    cases parens <;> rfl

/-- Tokens that hold no blanks, with any blanks around them. -/
inductive Spaced : List (List Char) → List Char → Prop
  /-- Behind the last token there are only blanks. -/
  | last {blanks : List Char} (hblanks : blanks.all Text.isBlank = true) : Spaced [] blanks
  /-- Blanks before a token. -/
  | token {blanks token text : List Char} {tokens : List (List Char)}
      (hblanks : blanks.all Text.isBlank = true) (hsolid : token.any Text.isBlank = false)
      (h : Spaced tokens text) :
      Spaced (token :: tokens) (blanks ++ (token ++ text))

theorem compact_append (first second : List Char) :
    Text.compact (first ++ second) = Text.compact first ++ Text.compact second :=
  List.filter_append first second

theorem compact_of_blanks {blanks : List Char} (h : blanks.all Text.isBlank = true) :
    Text.compact blanks = [] :=
  List.filter_eq_nil_iff.mpr fun c hc => by simp [List.all_eq_true.mp h c hc]

theorem compact_of_solid {text : List Char} (h : text.any Text.isBlank = false) :
    Text.compact text = text :=
  List.filter_eq_self.mpr fun c hc => by simpa using List.any_eq_false.mp h c hc

/-- Without its blanks a text is its tokens, one behind the other. -/
theorem Spaced.compact_eq {tokens : List (List Char)} {text : List Char} (h : Spaced tokens text) :
    Text.compact text = tokens.flatten := by
  induction h with
  | last hblanks => exact compact_of_blanks hblanks
  | token hblanks hsolid _ ih =>
    rw [compact_append, compact_append, compact_of_blanks hblanks, compact_of_solid hsolid, ih]
    rfl

/-! ## How they are read -/

section Readers

variable {p : Char → Bool} {taken text rest : List Char}

/-- A text is cut behind its first characters of a kind. -/
theorem span_eq_iff : text.span p = (taken, rest) ↔
    text = taken ++ rest ∧ (∀ c ∈ taken, p c = true) ∧ ∀ c ∈ rest.head?, p c = false := by
  rw [List.span_eq_takeWhile_dropWhile, Prod.mk.injEq]
  constructor
  · rintro ⟨rfl, rfl⟩
    refine ⟨List.takeWhile_append_dropWhile.symm, fun c hc => List.mem_takeWhile_imp hc,
      fun c hc => ?_⟩
    have hhead := List.head?_dropWhile_not p text
    rw [hc] at hhead
    exact hhead
  · rintro ⟨rfl, htaken, hrest⟩
    rw [List.takeWhile_append_of_pos htaken, List.dropWhile_append_of_pos htaken]
    cases rest with
    | nil => simp
    | cons c rest =>
      have hc : p c = false := hrest c rfl
      rw [List.takeWhile_cons_of_neg (by simp [hc]), List.dropWhile_cons_of_neg (by simp [hc])]
      simp

/-- Characters of a kind before a quote that is of another kind. -/
theorem exists_of_append_quote {content after : List Char} {quote : Char}
    (h : content ++ quote :: after = taken ++ rest) (hquote : p quote = false)
    (htaken : ∀ c ∈ taken, p c = true) :
    ∃ more, content = taken ++ more ∧ more ++ quote :: after = rest := by
  rcases List.append_eq_append_iff.mp h with ⟨excess, rfl, hexcess⟩ | ⟨more, rfl, hrest⟩
  · cases excess with
    | nil => exact ⟨[], by simp, by simpa using hexcess⟩
    | cons c excess =>
      obtain ⟨rfl, -⟩ := List.cons.inj hexcess
      rw [htaken quote (by simp)] at hquote
      cases hquote
  · exact ⟨more, rfl, hrest.symm⟩

theorem run?_eq_some_iff : run? p text = some (taken, rest) ↔
    text = taken ++ rest ∧ taken ≠ [] ∧ (∀ c ∈ taken, p c = true) ∧
      ∀ c ∈ rest.head?, p c = false := by
  rw [run?]
  split
  · rename_i found hspan
    constructor
    · rintro ⟨⟩
    · rintro ⟨htext, hne, hall, hrest⟩
      have hother := span_eq_iff.mpr ⟨htext, hall, hrest⟩
      rw [hspan] at hother
      exact absurd (Prod.mk.inj hother).1.symm hne
  · rename_i found behind hne hspan
    rw [Option.some.injEq, ← hspan, span_eq_iff]
    refine ⟨fun ⟨htext, hall, hrest⟩ => ⟨htext, ?_, hall, hrest⟩,
      fun ⟨htext, _, hall, hrest⟩ => ⟨htext, hall, hrest⟩⟩
    have hother := span_eq_iff.mpr ⟨htext, hall, hrest⟩
    rw [hspan] at hother
    exact (Prod.mk.inj hother).1 ▸ hne

theorem run?_append (hne : taken ≠ []) (hall : ∀ c ∈ taken, p c = true)
    (hrest : ∀ c ∈ rest.head?, p c = false) : run? p (taken ++ rest) = some (taken, rest) :=
  run?_eq_some_iff.mpr ⟨rfl, hne, hall, hrest⟩

theorem afterChar?_cons {c : Char} (hc : p c = true) (rest : List Char) :
    afterChar? p (c :: rest) = some rest := by
  rw [afterChar?, if_pos hc]

theorem afterChar?_eq_some (h : afterChar? p text = some rest) :
    ∃ c, p c = true ∧ text = c :: rest := by
  cases text with
  | nil => cases h
  | cons c text =>
    rw [afterChar?, Option.ite_none_right_eq_some] at h
    exact ⟨c, h.1, by rw [Option.some.inj h.2]⟩

theorem afterChar?_of_head (h : ∀ c ∈ text.head?, p c = false) : afterChar? p text = none := by
  cases text with
  | nil => rfl
  | cons c text => rw [afterChar?, h c rfl]; rfl

end Readers

section Characters

theorem eq_false_of_any {p : Char → Bool} {text : List Char} (h : text.any p = false) :
    ∀ c ∈ text, p c = false := by
  simpa using h

theorem isValueChar_of_coordinate {c : Char} (h : isCoordinateChar c = true) :
    isValueChar c = true := by
  rw [isCoordinateChar, Bool.and_eq_true] at h
  exact h.1

theorem isQuote_of_value {c : Char} (h : isValueChar c = true) : isQuote c = false := by
  simp only [isValueChar, Bool.not_eq_true', Bool.or_eq_false_iff] at h
  exact h.1.1.1

theorem IsMadeOf.isQuote_eq {part : List Char} (h : IsMadeOf isCoordinateChar part) :
    ∀ c ∈ part, isQuote c = false :=
  fun c hc => isQuote_of_value (isValueChar_of_coordinate (h.all c hc))

theorem isValueChar_of_isQuote {c : Char} (h : isQuote c = true) : isValueChar c = false := by
  simp [isValueChar, h]

theorem isCoordinateChar_of_separator {c : Char} (h : isSeparator c = true) :
    isCoordinateChar c = false := by
  simp only [isSeparator, Bool.or_eq_true, beq_iff_eq] at h
  rcases h with (h | rfl) | rfl
  · simp [isCoordinateChar, isValueChar_of_isQuote h]
  · decide
  · decide

theorem isSeparator_of_coordinate {c : Char} (h : isCoordinateChar c = true) :
    isSeparator c = false := by
  by_contra hc
  rw [Bool.not_eq_false] at hc
  rw [isCoordinateChar_of_separator hc] at h
  cases h

theorem isWord_of_isQuote {c : Char} (h : isQuote c = true) : Text.isWord c = false := by
  simp only [isQuote, Bool.or_eq_true, beq_iff_eq] at h
  rcases h with rfl | rfl <;> decide

/-- What closes a declaration belongs to no value. -/
theorem isValueChar_closing {parens : Bool} {c : Char} (h : c ∈ closing parens) :
    isValueChar c = false := by
  cases parens with
  | false => cases h
  | true =>
    obtain rfl := List.mem_singleton.mp h
    rfl

end Characters

section Words

variable {word rest : List Char}

/-- A word is read up to what stands behind it. -/
theorem run?_word (hne : word ≠ []) (hword : ∀ c ∈ word, Text.isWord c = true) (parens : Bool)
    {body : List Char} (hbody : ∀ c ∈ body.head?, Text.isWord c = false) :
    run? Text.isWord (word ++ enclosed parens body) = some (word, enclosed parens body) := by
  refine run?_append hne hword ?_
  cases parens with
  | false => exact hbody
  | true =>
    rintro c ⟨⟩
    rfl

/-- A word is read up to a quote, perhaps behind a parenthesis. -/
theorem run?_word_quote (hne : word ≠ []) (hword : ∀ c ∈ word, Text.isWord c = true)
    (parens : Bool) {quote : Char} (hquote : isQuote quote = true) (body : List Char) :
    run? Text.isWord (word ++ (opening parens ++ quote :: body)) =
      some (word, opening parens ++ quote :: body) := by
  refine run?_append hne hword ?_
  cases parens with
  | false =>
    rintro _ ⟨⟩
    exact isWord_of_isQuote hquote
  | true =>
    rintro c ⟨⟩
    rfl

/-- The parenthesis is skipped. -/
theorem skipOpen_quote (parens : Bool) {quote : Char} (hquote : isQuote quote = true)
    (body : List Char) : skipOpen (opening parens ++ quote :: body) = quote :: body := by
  refine skipOpen_opening ?_ parens
  rintro ⟨⟩
  cases hquote

theorem afterKeyword?_append {keyword : List Char} (hkeyword : ∀ c ∈ keyword, foldCase c = c)
    (rest : List Char) : afterKeyword? keyword (keyword ++ rest) = some rest := by
  induction keyword with
  | nil => rfl
  | cons c keyword ih =>
    obtain ⟨hc, hrest⟩ := List.forall_mem_cons.mp hkeyword
    rw [List.cons_append, afterKeyword?, if_pos (by simpa using hc), ih hrest]

/-- A keyword that a word of letters consists of is the word in lower case. -/
theorem eq_of_afterKeyword? {keyword : List Char} (hword : ∀ c ∈ word, isLetter c = true)
    (h : afterKeyword? keyword word = some []) : Text.asciiLower word = keyword := by
  induction keyword generalizing word with
  | nil =>
    obtain rfl := Option.some.inj h
    rfl
  | cons k keyword ih =>
    cases word with
    | nil => cases h
    | cons c word =>
      obtain ⟨hc, hrest⟩ := List.forall_mem_cons.mp hword
      rw [afterKeyword?, foldCase_of_isLetter hc] at h
      split at h
      · rename_i hk
        rw [← ih hrest h, ← beq_iff_eq.mp hk]
        rfl
      · cases h

/-- A word that does not end with a keyword is not split. -/
theorem splitWord_eq_none {keyword : String} (hword : ∀ c ∈ word, isLetter c = true)
    (h : ¬ keyword.toList <:+ Text.asciiLower word) (rest : List Char) :
    wordBeforeKeyword?.splitWord keyword word rest = none := by
  simp only [wordBeforeKeyword?.splitWord]
  split
  · rfl
  · rw [if_neg]
    intro hkeyword
    refine h ?_
    rw [← eq_of_afterKeyword? (fun c hc => hword c (List.mem_of_mem_drop hc))
      (beq_iff_eq.mp hkeyword)]
    exact (List.drop_suffix _ word).map Char.toLower

/-- A keyword is cut off the end of a word. -/
theorem splitWord_append {keyword : String} (hne : word ≠ [])
    (hkeyword : ∀ c ∈ keyword.toList, foldCase c = c) (rest : List Char) :
    wordBeforeKeyword?.splitWord keyword (word ++ keyword.toList) rest = some (word, rest) := by
  have hstart : (word ++ keyword.toList).take ((word ++ keyword.toList).length - keyword.length) =
      word := by
    rw [List.length_append, String.length_toList, Nat.add_sub_cancel, List.take_left]
  have hend := afterKeyword?_append hkeyword []
  rw [List.append_nil] at hend
  simp only [wordBeforeKeyword?.splitWord]
  rw [hstart, if_neg (by simpa using hne), List.drop_left, hend, if_pos (by rfl)]

/-- A keyword does not stand behind an opening parenthesis. -/
def NotInside (keyword : String) (rest : List Char) : Prop :=
  ∀ inner, rest = '(' :: inner → afterKeyword? keyword.toList inner = none

variable {keyword : String}

theorem wordBeforeKeyword?_of_notInside (hne : word ≠ [])
    (hword : ∀ c ∈ word, Text.isWord c = true) (hrest : ∀ c ∈ rest.head?, Text.isWord c = false)
    (hinside : NotInside keyword rest) :
    wordBeforeKeyword? keyword (word ++ rest) =
      wordBeforeKeyword?.splitWord keyword word rest := by
  simp only [wordBeforeKeyword?, run?_append hne hword hrest, Option.bind_eq_bind,
    Option.bind_some]
  split
  · rename_i inner
    simp only [hinside inner rfl]
  · rfl

/-- A word in front of a keyword is read, with or without an opening parenthesis between them. -/
theorem wordBeforeKeyword?_append (hne : word ≠ []) (hword : ∀ c ∈ word, Text.isWord c = true)
    (hkeyword : ∀ c ∈ keyword.toList, Text.isWord c = true ∧ foldCase c = c)
    (parens : Bool) {c : Char} (hc : Text.isWord c = false)
    (hinside : NotInside keyword (c :: rest)) :
    wordBeforeKeyword? keyword (word ++ enclosed parens (keyword.toList ++ c :: rest)) =
      some (word, c :: (rest ++ closing parens)) := by
  have hfold : ∀ c ∈ keyword.toList, foldCase c = c := fun c hc => (hkeyword c hc).2
  cases parens with
  | true =>
    have hopen : ∀ d ∈ ('(' :: (keyword.toList ++ c :: rest ++ [')'])).head?,
        Text.isWord d = false := by
      rintro _ ⟨⟩
      rfl
    have hbehind : afterKeyword? keyword.toList (keyword.toList ++ c :: rest ++ [')']) =
        some (c :: (rest ++ [')'])) := by
      rw [List.append_assoc]
      exact afterKeyword?_append hfold _
    simp only [wordBeforeKeyword?, enclosed, if_true, run?_append hne hword hopen,
      Option.bind_eq_bind, Option.bind_some, hbehind]
    rfl
  | false =>
    have hjoined : ∀ d ∈ word ++ keyword.toList, Text.isWord d = true :=
      List.forall_mem_append.mpr ⟨hword, fun c hc => (hkeyword c hc).1⟩
    have hbehind : ∀ d ∈ (c :: rest).head?, Text.isWord d = false := by
      rintro _ ⟨⟩
      exact hc
    rw [enclosed, if_neg (by simp), ← List.append_assoc,
      wordBeforeKeyword?_of_notInside (by simp [hne]) hjoined hbehind hinside,
      splitWord_append hne hfold]
    exact congrArg (fun tail => some (word, c :: tail)) (List.append_nil rest).symm

/-- A word that does not end with a keyword, and has none behind it, is not read as standing in
front of one. -/
theorem wordBeforeKeyword?_eq_none (hne : word ≠ []) (hword : ∀ c ∈ word, isLetter c = true)
    (hsuffix : ¬ keyword.toList <:+ Text.asciiLower word)
    (hrest : ∀ c ∈ rest.head?, Text.isWord c = false) (hinside : NotInside keyword rest) :
    wordBeforeKeyword? keyword (word ++ rest) = none := by
  rw [wordBeforeKeyword?_of_notInside hne (fun c hc => isWord_of_isLetter (hword c hc)) hrest
    hinside, splitWord_eq_none hword hsuffix]

end Words

section Quotations

variable {quotation : Quotation} {rest : List Char}

theorem Quotation.text_append (quotation : Quotation) (rest : List Char) :
    quotation.text ++ rest =
      quotation.quote :: (quotation.content ++ quotation.quote :: rest) := by
  rw [text, List.cons_append, List.append_assoc, List.singleton_append]

/-- Quotes are quotes only. -/
theorem Quotation.quote_ne (quotation : Quotation) {c : Char} (hc : isQuote c = false) :
    quotation.quote ≠ c := by
  rintro rfl
  rw [quotation.isQuote_quote] at hc
  cases hc

/-- A keyword does not begin with a quote. -/
theorem afterKeyword?_text {k : Char} {keyword : List Char} (hk : k ≠ '\'' ∧ k ≠ '"')
    (quotation : Quotation) (rest : List Char) :
    afterKeyword? (k :: keyword) (quotation.text ++ rest) = none := by
  have hother : ∀ c, isQuote c = true → (foldCase c == k) = false := by
    intro c hc
    simp only [isQuote, Bool.or_eq_true, beq_iff_eq] at hc
    rcases hc with rfl | rfl
    · exact beq_eq_false_iff_ne.mpr hk.1.symm
    · exact beq_eq_false_iff_ne.mpr hk.2.symm
  rw [Quotation.text_append, afterKeyword?, hother _ quotation.isQuote_quote]
  rfl

theorem isWord_head_enclosed (parens : Bool) (quotation : Quotation) :
    ∀ c ∈ (enclosed parens quotation.text).head?, Text.isWord c = false := by
  cases parens with
  | true =>
    rintro _ ⟨⟩
    rfl
  | false =>
    rintro _ ⟨⟩
    exact isWord_of_isQuote quotation.isQuote_quote

theorem notInside_enclosed {keyword : String} {k : Char} {letters : List Char}
    (hkeyword : keyword.toList = k :: letters) (hk : k ≠ '\'' ∧ k ≠ '"') (parens : Bool)
    (quotation : Quotation) : NotInside keyword (enclosed parens quotation.text) := by
  intro inner hinner
  rw [hkeyword]
  cases parens with
  | true =>
    obtain rfl := (List.cons.inj hinner).2
    exact afterKeyword?_text hk quotation [')']
  | false =>
    exact absurd (List.cons.inj hinner).1 (quotation.quote_ne rfl)

theorem quotedText?_append (h : ∀ c ∈ quotation.content, isQuote c = false) (rest : List Char) :
    quotedText? (quotation.text ++ rest) = some (quotation.content, rest) := by
  have hspan : (quotation.content ++ quotation.quote :: rest).span (!isQuote ·) =
      (quotation.content, quotation.quote :: rest) := by
    refine span_eq_iff.mpr ⟨rfl, fun c hc => by simp [h c hc], ?_⟩
    rintro c ⟨⟩
    simp [quotation.isQuote_quote]
  rw [Quotation.text_append]
  simp only [quotedText?, afterChar?_cons quotation.isQuote_quote, Option.bind_eq_bind,
    Option.bind_some, hspan, Option.pure_def]

theorem quotedValue?_append (hne : quotation.content ≠ [])
    (h : ∀ c ∈ quotation.content, isValueChar c = true) (rest : List Char) :
    quotedValue? (quotation.text ++ rest) = some (quotation.content, rest) := by
  have hrun : run? isValueChar (quotation.content ++ quotation.quote :: rest) =
      some (quotation.content, quotation.quote :: rest) := by
    refine run?_append hne h ?_
    rintro c ⟨⟩
    exact isValueChar_of_isQuote quotation.isQuote_quote
  rw [Quotation.text_append]
  simp [quotedValue?, afterChar?_cons quotation.isQuote_quote, hrun]

theorem quotedText?_of_head {text : List Char} (h : ∀ c ∈ text.head?, isQuote c = false) :
    quotedText? text = none := by
  simp [quotedText?, afterChar?_of_head h]

/-- The tokens of several quotations with commas between them. -/
def separated (quotations : List Quotation) : List (List Char) :=
  (quotations.map Quotation.text).intersperse [',']

theorem separated_cons (quotation next : Quotation) (quotations : List Quotation) :
    separated (quotation :: next :: quotations) =
      quotation.text :: [','] :: separated (next :: quotations) :=
  rfl

/-- Texts with commas between them are read, each without its quotes. -/
theorem quotedTexts?_separated {quotations : List Quotation} (hne : quotations ≠ [])
    (hcontent : ∀ quotation ∈ quotations, ∀ c ∈ quotation.content, isQuote c = false)
    (parens : Bool) {count : Nat} (hcount : quotations.length ≤ count) :
    quotedTexts? count ((separated quotations).flatten ++ closing parens) =
      some (quotations.map Quotation.content) := by
  induction quotations generalizing count with
  | nil => exact absurd rfl hne
  | cons quotation quotations ih =>
    obtain ⟨hfirst, hothers⟩ := List.forall_mem_cons.mp hcontent
    obtain ⟨count, rfl⟩ : ∃ fewer, count = fewer + 1 :=
      Nat.exists_eq_add_one_of_ne_zero (by rintro rfl; simp at hcount)
    have hread := quotedText?_append hfirst
    cases quotations with
    | nil =>
      have hclosed : isClosed (closing parens) = true := isClosed_iff.mpr ⟨parens, rfl⟩
      simp [separated, quotedTexts?, hread, hclosed]
    | cons next quotations =>
      have hrest := ih (List.cons_ne_nil _ _) hothers (Nat.le_of_succ_le_succ hcount)
      have hopen (rest : List Char) : isClosed (',' :: rest) = false := rfl
      rw [separated_cons, List.flatten_cons, List.flatten_cons, List.append_assoc,
        List.append_assoc, quotedTexts?, hread]
      simp [hopen, afterChar?, hrest]

theorem length_le_flatten_separated (quotations : List Quotation) :
    quotations.length ≤ (separated quotations).flatten.length := by
  induction quotations with
  | nil => exact Nat.le_refl 0
  | cons quotation quotations ih =>
    cases quotations with
    | nil => simp [separated, Quotation.text]
    | cons next quotations =>
      rw [separated_cons, List.flatten_cons, List.flatten_cons, List.length_append,
        List.length_append, List.length_cons]
      simp only [Quotation.text, List.length_cons] at ih ⊢
      omega

theorem head?_flatten_separated {quotations : List Quotation} (hne : quotations ≠ []) :
    ∃ quote, isQuote quote = true ∧ (separated quotations).flatten.head? = some quote := by
  obtain ⟨quotation, others, rfl⟩ := List.exists_cons_of_ne_nil hne
  refine ⟨quotation.quote, quotation.isQuote_quote, ?_⟩
  cases others <;> rfl

variable {word : List Char} (hne : word ≠ []) (hword : ∀ c ∈ word, Text.isWord c = true)
include hne hword

/-- A word and the texts behind it. -/
theorem wordWithTexts?_separated {quotations : List Quotation} (hsome : quotations ≠ [])
    (hcontent : ∀ quotation ∈ quotations, ∀ c ∈ quotation.content, isQuote c = false)
    (parens : Bool) :
    wordWithTexts? (word ++ enclosed parens (separated quotations).flatten) =
      some (word, quotations.map Quotation.content) := by
  obtain ⟨quote, hquote, hhead⟩ := head?_flatten_separated hsome
  have hbehind : ∀ c ∈ (separated quotations).flatten.head?, Text.isWord c = false := by
    rw [hhead]
    rintro _ ⟨⟩
    exact isWord_of_isQuote hquote
  have hrun := run?_word hne hword parens hbehind
  have hopen : (separated quotations).flatten.head? ≠ some '(' := by
    rw [hhead]
    rintro ⟨⟩
    cases hquote
  have hcount : quotations.length ≤
      (word ++ enclosed parens (separated quotations).flatten).length := by
    have hlength := length_le_flatten_separated quotations
    cases parens <;>
      simp only [enclosed, List.length_append, List.length_cons, Bool.false_eq_true, if_true,
        if_false] <;>
      omega
  have hread := quotedTexts?_separated hsome hcontent parens hcount
  simp only [wordWithTexts?, hrun, Option.bind_eq_bind, Option.bind_some, skipOpen_enclosed hopen,
    hread, Option.pure_def]

/-- A word is not followed by texts where something else comes first. -/
theorem wordWithTexts?_eq_none {rest : List Char} (hrest : ∀ c ∈ rest.head?, Text.isWord c = false)
    (h : ∀ c ∈ (skipOpen rest).head?, isQuote c = false) :
    wordWithTexts? (word ++ rest) = none := by
  have hnone (count : Nat) : quotedTexts? count (skipOpen rest) = none := by
    cases count with
    | zero => rfl
    | succ count => simp [quotedTexts?, quotedText?_of_head h]
  simp [wordWithTexts?, run?_append hne hword hrest, hnone]

end Quotations

end CorpusFacts.Gradle
