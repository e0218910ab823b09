import CorpusFacts.Gradle.IncludedModules
import CorpusFacts.Proofs.Analysis.Calls
import CorpusFacts.Proofs.Analysis.Distinct
import CorpusFacts.Proofs.Script.LiteralBodies
import CorpusFacts.Proofs.Script.Statements
import CorpusFacts.Proofs.Text.Splitting
import Mathlib.Data.List.TakeDrop

/-!
# Settings as they are written

A settings script of statements that include modules, others that include builds, and others that
name the root project is accepted in both dialects. The modules read from it are those mentioned,
each once, in the order in which they are first mentioned.
-/

namespace CorpusFacts.Gradle

open Script (Blanks Dialect IsStatement ReadsAlways Stays blankPieces isGap isWordChar kindsOf
  startsLayout)

-- What holds of the characters in a list is decided along the list, not for all characters.
local instance decidableForall {p : Char → Prop} [DecidablePred p] (text : List Char) :
    Decidable (∀ c ∈ text, p c) :=
  List.decidableBAll p text

/-! ## String literals -/

theorem ne_quote_of_isGap {c : Char} (h : isGap c = true) : c ≠ '"' ∧ c ≠ '\'' := by
  constructor <;> rintro rfl <;> cases h

/-- A literal between quotes. -/
structure StringLiteral where
  /-- The quote that it starts with. -/
  quote : Char
  /-- What stands behind that. -/
  body : List Char
  /-- The quote is a single or a double one. -/
  isQuote : quote = '"' ∨ quote = '\''
  /-- The literal ends where its characters do. -/
  closes : Script.afterString quote body = .ok []

namespace StringLiteral

variable (literal : StringLiteral) {dialect : Dialect} {tail : List Piece}

/-- The text of a literal. -/
def text : List Char :=
  literal.quote :: literal.body

/-- The piece of a literal. -/
def piece : Piece :=
  ⟨.token .string, literal.text⟩

/-- A literal ends with a quote. -/
theorem last_text : literal.text.getLast? = some literal.quote := by
  have hcloses : ∀ {opened : Script.OpenLiteral} {text : List Char},
      opened.closer.getLast? = some literal.quote →
      Script.closeLiterals [opened] text = .ok [] → text.getLast? = some literal.quote := by
    intro opened text hcloser h
    obtain ⟨body, rfl⟩ := (Script.closeLiterals_closedBy h opened rfl).closer
    have hne : opened.closer ≠ [] := by
      rintro hnil
      simp [hnil] at hcloser
    rwa [List.append_nil, List.getLast?_append_of_ne_nil _ hne]
  have h := literal.closes
  rw [text]
  cases hbody : literal.body with
  | nil => rfl
  | cons c body =>
    rw [hbody, Script.afterString_cons] at h
    rw [List.getLast?_cons_cons]
    split at h
    · have hlast := hcloses rfl h
      cases body with
      | nil => cases hlast
      | cons d body =>
        rw [List.tail_cons] at hlast
        rw [List.getLast?_cons, List.getLast?_cons, hlast]
        rfl
    · exact hcloses rfl h

theorem exists_last : ∃ front, literal.text = front ++ [literal.quote] :=
  List.getLast?_eq_some_iff.mp literal.last_text

/-- A literal is read as such, if no quote follows it. -/
theorem reads (hend : ∀ c ∈ (textOf tail).head?, c ≠ '"' ∧ c ≠ '\'')
    (h : ReadsAlways dialect tail) : ReadsAlways dialect (literal.piece :: tail) := by
  have hquotes : Script.AddsNoQuote [] (textOf tail) := by
    rintro quote hquote - hhead
    rcases hquote with rfl | rfl
    · exact (hend _ hhead).1 rfl
    · exact (hend _ hhead).2 rfl
  have hcloses : Script.afterString literal.quote (literal.body ++ []) = .ok [] := by
    rw [List.append_nil]
    exact literal.closes
  exact h.cons fun _ => .string literal.isQuote
    (Script.afterString_follows literal.isQuote hquotes hcloses)

end StringLiteral

/-! ## Module paths -/

/-- The characters of the segments of module paths: letters, digits, dots, underscores and
hyphens. -/
def isSegmentChar (c : Char) : Bool :=
  Text.isAlphanumeric c || c == '.' || c == '_' || c == '-'

theorem ne_of_isSegmentChar {c d : Char} (h : isSegmentChar c = true)
    (hd : isSegmentChar d = false) : c ≠ d := by
  rintro rfl
  rw [h] at hd
  cases hd

/-- A path of a module. -/
structure ModulePath where
  /-- Its segments. -/
  segments : List (List Char)
  /-- There is one. -/
  ne_nil : segments ≠ []
  /-- No segment is empty. -/
  segment_ne_nil : ∀ segment ∈ segments, segment ≠ []
  /-- Segments are made of letters, digits, dots, underscores and hyphens. -/
  isSegment : ∀ segment ∈ segments, ∀ c ∈ segment, isSegmentChar c = true
  deriving DecidableEq

namespace ModulePath

variable (path : ModulePath)

/-- The directory of a module: its segments with slashes between them. -/
def directory : String :=
  String.ofList (['/'].intercalate path.segments)

theorem notMem_segment {c : Char} (hc : isSegmentChar c = false) :
    ∀ segment ∈ path.segments, c ∉ segment :=
  fun segment hsegment hmem => ne_of_isSegmentChar (path.isSegment segment hsegment c hmem) hc rfl

/-- Modules with different paths lie in different directories. -/
theorem directory_injective : Function.Injective directory := by
  intro path other h
  have htext : ['/'].intercalate path.segments = ['/'].intercalate other.segments := by
    simpa only [directory, String.toList_ofList] using congrArg String.toList h
  have hsegments := Text.split_intercalate path.ne_nil (path.notMem_segment (c := '/') (by decide))
  rw [htext, Text.split_intercalate other.ne_nil
    (other.notMem_segment (c := '/') (by decide))] at hsegments
  obtain ⟨segments, _, _, _⟩ := path
  obtain ⟨others, _, _, _⟩ := other
  cases hsegments
  rfl

end ModulePath

/-- A module path between quotes. -/
structure Mention where
  /-- The path. -/
  path : ModulePath
  /-- Whether a colon stands before its first segment. -/
  isRooted : Bool
  /-- The quote on both sides. -/
  quote : Char
  /-- It is a single or a double one. -/
  isQuote : quote = '"' ∨ quote = '\''

namespace Mention

variable (mention : Mention)

/-- What stands between the quotes. -/
def content : List Char :=
  (if mention.isRooted then [':'] else []) ++ [':'].intercalate mention.path.segments

/-- The characters between the quotes. -/
theorem of_mem_content {c : Char} (h : c ∈ mention.content) : c = ':' ∨ isSegmentChar c = true := by
  rcases List.mem_append.mp h with h | h
  · split at h
    · exact Or.inl (List.mem_singleton.mp h)
    · cases h
  · refine (Text.of_mem_intercalate h).imp_right ?_
    rintro ⟨segment, hsegment, hc⟩
    exact mention.path.isSegment segment hsegment c hc

/-- Only colons and characters of segments stand between the quotes. -/
theorem notMem_content {c : Char} (hcolon : c ≠ ':') (hsegment : isSegmentChar c = false) :
    c ∉ mention.content := by
  intro h
  rcases mention.of_mem_content h with rfl | h
  · exact hcolon rfl
  · exact ne_of_isSegmentChar h hsegment rfl

theorem quote_notMem_content : mention.quote ∉ mention.content := by
  rcases mention.isQuote with h | h <;> rw [h] <;>
    exact mention.notMem_content (by decide) (by decide)

end Mention

/-- A literal ends with the first quote, if there are no line breaks, backslashes or dollar signs
before that. -/
theorem closeLiterals_plain {quote : Char} {start content rest : List Char}
    (hquote : quote = '"' ∨ quote = '\'')
    (hplain : ∀ c ∈ content, c ≠ '\n' ∧ c ≠ '\\' ∧ c ≠ '$' ∧ c ≠ quote) :
    Script.closeLiterals [.simple quote start] (content ++ quote :: rest) = .ok rest := by
  induction content with
  | nil =>
    rcases hquote with rfl | rfl <;>
      rw [List.nil_append, Script.closeLiterals.eq_def] <;> simp [Script.closeLiterals]
  | cons c content ih =>
    obtain ⟨⟨hline, hescape, hdollar, hclose⟩, hcontent⟩ := List.forall_mem_cons.mp hplain
    rw [List.cons_append, Script.closeLiterals.eq_def]
    simpa [hline, hescape, hdollar, hclose] using ih hcontent

/-- A module path between quotes is a literal. -/
def Mention.literal (mention : Mention) : StringLiteral where
  quote := mention.quote
  body := mention.content ++ [mention.quote]
  isQuote := mention.isQuote
  closes := by
    have hplain : ∀ c ∈ mention.content, c ≠ '\n' ∧ c ≠ '\\' ∧ c ≠ '$' ∧ c ≠ mention.quote := by
      intro c hc
      refine ⟨?_, ?_, ?_, fun h => mention.quote_notMem_content (h ▸ hc)⟩ <;>
        rintro rfl <;> exact mention.notMem_content (by decide) (by decide) hc
    have hcloses {start : List Char} := @closeLiterals_plain _ start _ [] mention.isQuote hplain
    cases hcontent : mention.content with
    | nil => simpa [Script.afterString, hcontent] using hcloses
    | cons c content =>
      rw [hcontent] at hplain hcloses
      have hopens : (c == mention.quote &&
          (content ++ [mention.quote]).head? == some mention.quote) = false := by
        simp [(hplain c (List.mem_cons_self ..)).2.2.2]
      rw [List.cons_append, Script.afterString_cons, hopens]
      exact hcloses

/-- The directory of a mentioned module is that of its path. -/
theorem Mention.moduleDirectory?_content (mention : Mention) :
    moduleDirectory? mention.content = some (['/'].intercalate mention.path.segments) := by
  have hblank : ∀ c ∈ mention.content, Text.isBlank c = false := by
    intro c hc
    by_contra hblank
    rw [Bool.not_eq_false] at hblank
    rcases mention.of_mem_content hc with rfl | hsegment
    · exact absurd hblank (by decide)
    · rw [isSegmentChar, Text.isAlphanumeric_of_isBlank hblank] at hsegment
      simp only [Bool.false_or, Bool.or_eq_true, beq_iff_eq] at hsegment
      rcases hsegment with (rfl | rfl) | rfl <;> exact absurd hblank (by decide)
  have htrim : Text.trim mention.content = mention.content :=
    Text.trim_of_ends (fun c hc => hblank c (List.mem_of_head? hc))
      fun c hc => hblank c (List.mem_of_getLast? hc)
  have hsegments : (Text.split ':' ([':'].intercalate mention.path.segments)).filter
      (!·.isEmpty) = mention.path.segments := by
    rw [Text.split_intercalate mention.path.ne_nil (mention.path.notMem_segment (by decide)),
      List.filter_eq_self]
    intro segment hsegment
    simpa using mention.path.segment_ne_nil segment hsegment
  have hparts : (Text.split ':' mention.content).filter (!·.isEmpty) = mention.path.segments := by
    rw [content]
    split
    · have hsplit := Text.split_append ':' [] ([':'].intercalate mention.path.segments)
      rw [List.nil_append] at hsplit
      rw [List.singleton_append, hsplit, List.filter_append, hsegments]
      rfl
    · rwa [List.nil_append]
  rw [moduleDirectory?, htrim, hparts]
  cases hempty : mention.path.segments with
  | nil => exact absurd hempty mention.path.ne_nil
  | cons => rfl

/-! ## Literals in a text -/

/-- Where all characters of a text are looked at, some values are those of its literals. -/
def HasLiterals (text : List Char) (values : List (List Char)) : Prop :=
  ∀ count, text.length ≤ count → literalTexts count text = values

namespace HasLiterals

variable {text : List Char} {values : List (List Char)}

theorem nil : HasLiterals [] [] := by
  intro count _
  cases count <;> rfl

/-- Characters that are no quotes belong to no literal. -/
theorem skip {front : List Char} (hfront : ∀ c ∈ front, isQuote c = false)
    (h : HasLiterals text values) : HasLiterals (front ++ text) values := by
  induction front with
  | nil => exact h
  | cons c front ih =>
    obtain ⟨hc, hfront⟩ := List.forall_mem_cons.mp hfront
    intro count hcount
    rw [List.cons_append, List.length_cons] at hcount
    obtain ⟨count, rfl⟩ := Nat.exists_eq_add_of_lt (Nat.lt_of_lt_of_le (Nat.succ_pos _) hcount)
    have hnone : literalText? (c :: (front ++ text)) = none := by simp [literalText?, hc]
    rw [List.cons_append, Nat.zero_add, literalTexts, hnone]
    exact ih hfront count (by omega)

/-- A mentioned path is the next literal. -/
theorem mention (mention : Mention) (h : HasLiterals text values) :
    HasLiterals (mention.literal.text ++ text) (mention.content :: values) := by
  have hquote : isQuote mention.quote = true := by
    rcases mention.isQuote with h | h <;> rw [h] <;> rfl
  have hcontent : ∀ c ∈ mention.content, (c != mention.quote) = true := by
    intro c hc
    rw [bne_iff_ne]
    rintro rfl
    exact mention.quote_notMem_content hc
  have hliteral : literalText? (mention.quote :: (mention.content ++ mention.quote :: text)) =
      some (mention.content, text) := by
    rw [literalText?, hquote, List.span_eq_takeWhile_dropWhile,
      List.takeWhile_append_of_pos hcontent, List.dropWhile_append_of_pos hcontent]
    simp
  have htext : mention.literal.text ++ text =
      mention.quote :: (mention.content ++ mention.quote :: text) := by
    simp [StringLiteral.text, Mention.literal]
  rw [htext]
  intro count hcount
  rw [List.length_cons] at hcount
  obtain ⟨count, rfl⟩ := Nat.exists_eq_add_of_lt (Nat.lt_of_lt_of_le (Nat.succ_pos _) hcount)
  rw [Nat.zero_add, literalTexts, hliteral]
  simp only
  rw [h count]
  simp at hcount
  omega

end HasLiterals

/-! ## Arguments -/

/-- Some arguments with commas between them. -/
structure Arguments (α : Type) where
  /-- The first argument. -/
  first : α
  /-- The others, each with the blanks on both sides of the comma before it. -/
  others : List ((Blanks × Blanks) × α)

namespace Arguments

variable {α : Type} (literalOf : α → StringLiteral)

/-- Only one argument. -/
def single (argument : α) : Arguments α :=
  ⟨argument, []⟩

/-- The arguments, in their order. -/
def toList (arguments : Arguments α) : List α :=
  arguments.first :: arguments.others.map (·.2)

/-- The pieces of further arguments, each with a comma before it. -/
def laterPieces : List ((Blanks × Blanks) × α) → List Piece
  | [] => []
  | ((before, behind), argument) :: others => blankPieces before.chars ++
      ⟨.token (.punct ','), [',']⟩ :: (blankPieces behind.chars ++
        (literalOf argument).piece :: laterPieces others)

/-- The text of further arguments, each with a comma before it. -/
def laterText : List ((Blanks × Blanks) × α) → List Char
  | [] => []
  | ((before, behind), argument) :: others =>
    before.chars ++ ',' :: (behind.chars ++ ((literalOf argument).text ++ laterText others))

/-- The pieces of some arguments. -/
def pieces (arguments : Arguments α) : List Piece :=
  (literalOf arguments.first).piece :: laterPieces literalOf arguments.others

/-- The text of some arguments. -/
def text (arguments : Arguments α) : List Char :=
  (literalOf arguments.first).text ++ laterText literalOf arguments.others

variable {dialect : Dialect} {tail : List Piece} {literalOf}

@[simp] theorem textOf_laterPieces (others : List ((Blanks × Blanks) × α)) :
    textOf (laterPieces literalOf others) = laterText literalOf others := by
  induction others with
  | nil => rfl
  | cons argument others ih => simp [laterPieces, laterText, ih, StringLiteral.piece]

@[simp] theorem textOf_pieces (arguments : Arguments α) :
    textOf (arguments.pieces literalOf) = arguments.text literalOf := by
  simp [pieces, text, StringLiteral.piece]

theorem mem_kindsOf_pieces (arguments : Arguments α) :
    ∀ kind ∈ kindsOf (arguments.pieces literalOf), kind = .string ∨ kind = .punct ',' := by
  obtain ⟨first, others⟩ := arguments
  have hlater : ∀ kind ∈ kindsOf (laterPieces literalOf others),
      kind = .string ∨ kind = .punct ',' := by
    induction others with
    | nil => simp [laterPieces]
    | cons argument others ih => simpa [laterPieces, StringLiteral.piece] using ih
  simpa [pieces, StringLiteral.piece] using hlater

/-- Arguments stay in a statement. -/
theorem stays (arguments : Arguments α) : Stays (kindsOf (arguments.pieces literalOf)) := by
  refine .of_plain fun kind hkind => ?_
  rcases arguments.mem_kindsOf_pieces kind hkind with rfl | rfl <;> exact ⟨rfl, rfl⟩

/-- Arguments end with a literal. -/
theorem exists_last (arguments : Arguments α) :
    ∃ front argument, arguments.pieces literalOf = front ++ [(literalOf argument).piece] := by
  obtain ⟨first, others⟩ := arguments
  induction others generalizing first with
  | nil => exact ⟨[], first, rfl⟩
  | cons argument others ih =>
    obtain ⟨front, last, hlast⟩ := ih argument.2
    rw [pieces] at hlast
    exact ⟨(literalOf first).piece :: (blankPieces argument.1.1.chars ++
      ⟨.token (.punct ','), [',']⟩ :: (blankPieces argument.1.2.chars ++ front)), last, by
        simp [pieces, laterPieces, hlast]⟩

/-- No quote stands directly behind an argument. -/
theorem head_laterPieces {others : List ((Blanks × Blanks) × α)}
    (hend : ∀ c ∈ (textOf tail).head?, c ≠ '"' ∧ c ≠ '\'') :
    ∀ c ∈ (textOf (laterPieces literalOf others ++ tail)).head?, c ≠ '"' ∧ c ≠ '\'' := by
  cases others with
  | nil => exact hend
  | cons argument others =>
    rw [textOf_append, textOf_laterPieces, laterText, List.append_assoc]
    refine argument.1.1.head (fun c => ne_quote_of_isGap) fun c hc => ?_
    obtain rfl := Option.some.inj hc
    decide

/-- Arguments are read as such, if no quote follows them. -/
theorem reads (arguments : Arguments α) (hend : ∀ c ∈ (textOf tail).head?, c ≠ '"' ∧ c ≠ '\'')
    (h : ReadsAlways dialect tail) :
    ReadsAlways dialect (arguments.pieces literalOf ++ tail) := by
  obtain ⟨first, others⟩ := arguments
  refine (literalOf first).reads (head_laterPieces hend) ?_
  induction others with
  | nil => exact h
  | cons argument others ih =>
    have hargument := ((literalOf argument.2).reads (head_laterPieces hend) ih).blanks argument.1.2
    have hcomma := hargument.mark (c := ',') (by decide) (by decide) (by decide) (by decide)
      (by decide)
    simpa [laterPieces] using hcomma.blanks argument.1.1

theorem isQuote_of_mem_blanks (blanks : Blanks) : ∀ c ∈ blanks.chars, isQuote c = false := by
  intro c hc
  obtain ⟨hdouble, hsingle⟩ := ne_quote_of_isGap (blanks.isGap c hc)
  simp [isQuote, hdouble, hsingle]

/-- The literals of mentioned paths are what stands between their quotes. -/
theorem hasLiterals {text : List Char} {values : List (List Char)} (arguments : Arguments Mention)
    (h : HasLiterals text values) :
    HasLiterals (arguments.text Mention.literal ++ text)
      (arguments.toList.map Mention.content ++ values) := by
  obtain ⟨first, others⟩ := arguments
  rw [Arguments.text, List.append_assoc]
  refine .mention first ?_
  induction others with
  | nil => exact h
  | cons argument others ih =>
    obtain ⟨⟨before, behind⟩, mention⟩ := argument
    have hmention := HasLiterals.mention mention ih
    have hcomma : ∀ c ∈ [','], isQuote c = false := by decide
    have hlater := ((hmention.skip (isQuote_of_mem_blanks behind)).skip hcomma).skip
      (isQuote_of_mem_blanks before)
    simpa [laterText] using hlater

end Arguments

/-! ## Statements -/

/-- What stands around the arguments of a call. -/
inductive Wrapping where
  /-- Nothing but blanks before them. -/
  | bare (before : Blanks)
  /-- Parentheses, with blanks around and inside. -/
  | parenthesized (before inside behind : Blanks)

namespace Wrapping

/-- The pieces of wrapped arguments. -/
def pieces (inner : List Piece) : Wrapping → List Piece
  | bare before => blankPieces before.chars ++ inner
  | parenthesized before inside behind => blankPieces before.chars ++
      ⟨.token (.opening .round), ['(']⟩ :: (blankPieces inside.chars ++ (inner ++
        (blankPieces behind.chars ++ [⟨.token (.closing .round), [')']⟩])))

/-- The text of wrapped arguments. -/
def text (inner : List Char) : Wrapping → List Char
  | bare before => before.chars ++ inner
  | parenthesized before inside behind =>
    before.chars ++ '(' :: (inside.chars ++ (inner ++ (behind.chars ++ [')'])))

variable (wrapping : Wrapping)

@[simp] theorem textOf_pieces (inner : List Piece) :
    textOf (wrapping.pieces inner) = wrapping.text (textOf inner) := by
  cases wrapping <;> simp [pieces, text]

/-- Where blanks, parentheses and arguments start with certain characters, wrapped arguments do. -/
theorem head {p : Char → Prop} (hgap : ∀ c, isGap c = true → p c) (hparenthesis : p '(')
    {inner : List Char} (hne : inner ≠ []) (hinner : ∀ c ∈ inner.head?, p c) (text : List Char) :
    ∀ c ∈ (wrapping.text inner ++ text).head?, p c := by
  cases wrapping with
  | bare before =>
    rw [Wrapping.text, List.append_assoc]
    refine before.head hgap fun c hc => hinner c ?_
    rwa [List.head?_append_of_ne_nil _ hne] at hc
  | parenthesized before inside behind =>
    rw [Wrapping.text, List.append_assoc]
    refine before.head hgap fun c hc => ?_
    obtain rfl := Option.some.inj hc
    exact hparenthesis

variable {α : Type} (literalOf : α → StringLiteral) (arguments : Arguments α)

/-- Wrapped arguments stay in a statement. -/
theorem stays : Stays (kindsOf (wrapping.pieces (arguments.pieces literalOf))) := by
  cases wrapping with
  | bare before => simpa [pieces] using arguments.stays
  | parenthesized before inside behind =>
    simpa [pieces] using Stays.group (by decide) arguments.stays .nil

/-- Wrapped arguments end with a literal or a parenthesis. -/
theorem exists_last : ∃ front last text, wrapping.pieces (arguments.pieces literalOf) =
    front ++ [⟨.token last, text⟩] ∧ (last = .string ∨ last = .closing .round) := by
  obtain ⟨front, last, hlast⟩ : ∃ front argument, arguments.pieces literalOf =
      front ++ [(literalOf argument).piece] := arguments.exists_last
  cases wrapping with
  | bare before =>
    exact ⟨blankPieces before.chars ++ front, .string, (literalOf last).text,
      by simp [pieces, hlast, StringLiteral.piece], Or.inl rfl⟩
  | parenthesized before inside behind =>
    exact ⟨blankPieces before.chars ++ ⟨.token (.opening .round), ['(']⟩ ::
      (blankPieces inside.chars ++ (arguments.pieces literalOf ++ blankPieces behind.chars)),
      .closing .round, [')'], by simp [pieces], Or.inr rfl⟩

/-- Wrapped arguments are read as such, if no quote follows them. -/
theorem reads {dialect : Dialect} {tail : List Piece}
    (hend : ∀ c ∈ (textOf tail).head?, c ≠ '"' ∧ c ≠ '\'') (h : ReadsAlways dialect tail) :
    ReadsAlways dialect (wrapping.pieces (arguments.pieces literalOf) ++ tail) := by
  cases wrapping with
  | bare before => simpa [pieces] using (arguments.reads hend h).blanks before
  | parenthesized before inside behind =>
    have hclosing := (h.closing (c := ')') rfl).blanks behind
    have hbehind : ∀ c ∈ (textOf (blankPieces behind.chars ++
        ⟨.token (.closing .round), [')']⟩ :: tail)).head?, c ≠ '"' ∧ c ≠ '\'' := by
      rw [textOf_append, Script.textOf_blankPieces]
      refine behind.head (fun c => ne_quote_of_isGap) fun c hc => ?_
      obtain rfl := Option.some.inj hc
      decide
    have hinner : ReadsAlways dialect (arguments.pieces literalOf ++
        (blankPieces behind.chars ++ ⟨.token (.closing .round), [')']⟩ :: tail)) :=
      arguments.reads hbehind hclosing
    simpa [pieces] using ((hinner.blanks inside).opening (c := '(') rfl).blanks before

/-- Around arguments there are no literals. -/
theorem hasLiterals (mentions : Arguments Mention) :
    HasLiterals (wrapping.text (mentions.text Mention.literal))
      (mentions.toList.map Mention.content) := by
  cases wrapping with
  | bare before =>
    have hmentions := mentions.hasLiterals .nil
    rw [List.append_nil, List.append_nil] at hmentions
    exact hmentions.skip (Arguments.isQuote_of_mem_blanks before)
  | parenthesized before inside behind =>
    have hclosing : HasLiterals (behind.chars ++ ([')'] ++ [])) [] :=
      (HasLiterals.nil.skip (by decide)).skip (Arguments.isQuote_of_mem_blanks behind)
    have hmentions := (mentions.hasLiterals hclosing).skip (Arguments.isQuote_of_mem_blanks inside)
    have hopening : ∀ c ∈ ['('], isQuote c = false := by decide
    have hall := (hmentions.skip hopening).skip (Arguments.isQuote_of_mem_blanks before)
    simpa [text] using hall

end Wrapping

/-- A statement of a settings script as it is written. -/
inductive SettingsStatement where
  /-- It includes modules. -/
  | includes (wrapping : Wrapping) (mentions : Arguments Mention)
  /-- It includes a build. -/
  | includesBuild (wrapping : Wrapping) (build : StringLiteral)
  /-- It names the root project. -/
  | namesRoot (before behind : Blanks) (name : StringLiteral)

namespace SettingsStatement

/-- What a statement starts with. -/
def start : SettingsStatement → String
  | includes .. => "include"
  | includesBuild .. => "includeBuild"
  | namesRoot .. => "rootProject.name"

/-- What stands behind the start of a statement. -/
def rest : SettingsStatement → List Char
  | includes wrapping mentions => wrapping.text (mentions.text Mention.literal)
  | includesBuild wrapping build => wrapping.text ((Arguments.single build).text id)
  | namesRoot before behind name => before.chars ++ '=' :: (behind.chars ++ name.text)

/-- The text of a statement. -/
def text (statement : SettingsStatement) : List Char :=
  statement.start.toList ++ statement.rest

/-- The pieces of a statement. -/
def pieces : SettingsStatement → List Piece
  | includes wrapping mentions =>
    ⟨.token .word, "include".toList⟩ :: wrapping.pieces (mentions.pieces Mention.literal)
  | includesBuild wrapping build =>
    ⟨.token .word, "includeBuild".toList⟩ :: wrapping.pieces ((Arguments.single build).pieces id)
  | namesRoot before behind name =>
    ⟨.token .word, "rootProject".toList⟩ :: ⟨.token (.punct '.'), ['.']⟩ ::
      ⟨.token .word, "name".toList⟩ :: (blankPieces before.chars ++
        ⟨.token (.punct '='), ['=']⟩ :: (blankPieces behind.chars ++ [name.piece]))

/-- The paths of the modules that a statement includes; nothing where it is for something else. -/
def paths? : SettingsStatement → Option (List ModulePath)
  | includes _ mentions => some (mentions.toList.map Mention.path)
  | includesBuild .. => none
  | namesRoot .. => none

end SettingsStatement

/-- A quote belongs to no word. -/
theorem StringLiteral.isWordChar_quote (literal : StringLiteral) :
    isWordChar literal.quote = false ∧ Text.isWord literal.quote = false := by
  rcases literal.isQuote with h | h <;> rw [h] <;> decide

/-- What stands around and in the arguments of a call does not go on with the word before it. -/
theorem head_call {α : Type} {literalOf : α → StringLiteral} (wrapping : Wrapping)
    (arguments : Arguments α) (text : List Char) :
    ∀ c ∈ (wrapping.text (arguments.text literalOf) ++ text).head?,
      isWordChar c = false ∧ Text.isWord c = false := by
  have hgap : ∀ c, isGap c = true → isWordChar c = false ∧ Text.isWord c = false := by
    intro c hc
    simp only [isGap, Bool.or_eq_true, beq_iff_eq] at hc
    rcases hc with ((rfl | rfl) | rfl) | rfl <;> decide
  refine wrapping.head hgap (by decide) (List.cons_ne_nil _ _) (fun c hc => ?_) text
  obtain rfl := Option.some.inj hc
  exact (literalOf arguments.first).isWordChar_quote

/-- A call with literals as arguments is one statement. -/
theorem isStatement_call {α : Type} {literalOf : α → StringLiteral} {dialect : Dialect}
    {word : String} (hword : word = "include" ∨ word = "includeBuild") (wrapping : Wrapping)
    (arguments : Arguments α) :
    IsStatement dialect .statement
      (word.toList ++ wrapping.text (arguments.text literalOf))
      (⟨.token .word, word.toList⟩ :: wrapping.pieces (arguments.pieces literalOf)) := by
  obtain ⟨front, last, text, hlast, hkind⟩ := wrapping.exists_last literalOf arguments
  refine ⟨by simp, ?_, ?_, ?_, ?_, ?_⟩
  · rcases hword with rfl | rfl <;> exact ⟨'i', _, _, rfl, by decide⟩
  · refine ⟨⟨.token .word, word.toList⟩ :: front, last, text, by simp [hlast], ?_⟩
    rcases hkind with rfl | rfl <;> exact ⟨rfl, by simp⟩
  · rw [Script.kindsOf_token]
    exact .plain rfl rfl (wrapping.stays literalOf arguments)
  · intro tail hend htail
    have hwrapped : ReadsAlways dialect (wrapping.pieces (arguments.pieces literalOf) ++ tail) :=
      wrapping.reads literalOf arguments
        (fun c hc => (Script.plain_of_startsLayout (hend c hc)).2) htail
    obtain ⟨c, later, hcons, hall⟩ : ∃ c later, word.toList = c :: later ∧
        ∀ d ∈ c :: later, isWordChar d = true := by
      rcases hword with rfl | rfl <;> exact ⟨_, _, rfl, by decide⟩
    have hhead : ∀ d ∈ (textOf (wrapping.pieces (arguments.pieces literalOf) ++ tail)).head?,
        isWordChar d = false := by
      rw [textOf_append, Wrapping.textOf_pieces, Arguments.textOf_pieces]
      exact fun d hd => (head_call wrapping arguments _ d hd).1
    rw [hcons]
    exact hwrapped.word hall hhead
  · intro start line
    have hlater : kindsOf (wrapping.pieces (arguments.pieces literalOf)) ≠ [] := by
      simp [hlast]
    rw [Script.leafKind_tokensFrom hlater]
    rcases hword with rfl | rfl <;> rw [if_neg (by decide), if_neg (by decide)]

/-- An assignment to the name of the root project is one statement. -/
theorem isStatement_namesRoot {dialect : Dialect} (before behind : Blanks) (name : StringLiteral) :
    IsStatement dialect .statement (SettingsStatement.namesRoot before behind name).text
      (SettingsStatement.namesRoot before behind name).pieces := by
  refine ⟨?_, ?_, ?_, ?_, ?_, ?_⟩
  · have hname : "rootProject.name".toList = "rootProject".toList ++ '.' :: "name".toList := by
      decide +kernel
    rw [SettingsStatement.text, SettingsStatement.start, hname]
    simp only [SettingsStatement.pieces, SettingsStatement.rest, StringLiteral.piece, textOf_cons,
      textOf_append, textOf_nil, Script.textOf_blankPieces, List.append_nil, List.append_assoc,
      List.cons_append, List.nil_append]
  · exact ⟨'r', "ootProject".toList, _, rfl, by decide⟩
  · exact ⟨⟨.token .word, "rootProject".toList⟩ :: ⟨.token (.punct '.'), ['.']⟩ ::
      ⟨.token .word, "name".toList⟩ :: (blankPieces before.chars ++
        ⟨.token (.punct '='), ['=']⟩ :: blankPieces behind.chars), .string, name.text,
      by simp [SettingsStatement.pieces, StringLiteral.piece], rfl, by simp⟩
  · refine .of_plain fun kind hkind => ?_
    simp only [SettingsStatement.pieces, StringLiteral.piece, Script.kindsOf_token,
      Script.kindsOf_append, Script.kindsOf_blankPieces, Script.kindsOf_nil, List.nil_append,
      List.mem_cons, List.not_mem_nil, or_false] at hkind
    rcases hkind with rfl | rfl | rfl | rfl | rfl <;> exact ⟨rfl, rfl⟩
  · intro tail hend htail
    have hname := (name.reads (fun c hc => (Script.plain_of_startsLayout (hend c hc)).2)
      htail).blanks behind
    have hequals := (hname.mark (c := '=') (by decide) (by decide) (by decide) (by decide)
      (by decide)).blanks before
    have hword : ReadsAlways dialect (⟨.token .word, "name".toList⟩ :: (blankPieces before.chars ++
        ⟨.token (.punct '='), ['=']⟩ :: (blankPieces behind.chars ++ name.piece :: tail))) := by
      refine hequals.word (by decide) ?_
      rw [textOf_append, Script.textOf_blankPieces]
      refine before.head (fun c => Script.isWordChar_of_isGap) fun c hc => ?_
      obtain rfl := Option.some.inj hc
      decide
    have hdot := hword.mark (c := '.') (by decide) (by decide) (by decide) (by decide) (by decide)
    have hroot : ReadsAlways dialect (⟨.token .word, "rootProject".toList⟩ :: _) :=
      hdot.word (by decide) (by rintro c hc; obtain rfl := Option.some.inj hc; decide)
    simpa [SettingsStatement.pieces] using hroot
  · intro start line
    rw [SettingsStatement.pieces, Script.leafKind_tokensFrom (by simp), if_neg (by decide),
      if_neg (by decide)]

/-- Every statement of a settings script is one statement. -/
theorem SettingsStatement.isStatement (statement : SettingsStatement) {dialect : Dialect} :
    IsStatement dialect .statement statement.text statement.pieces := by
  cases statement with
  | includes wrapping mentions => exact isStatement_call (Or.inl rfl) wrapping mentions
  | includesBuild wrapping build => exact isStatement_call (Or.inr rfl) wrapping (.single build)
  | namesRoot before behind name => exact isStatement_namesRoot before behind name

/-! ## Modules of statements -/

/-- The text of arguments ends with a quote. -/
theorem Arguments.exists_last_text {α : Type} {literalOf : α → StringLiteral}
    (arguments : Arguments α) :
    ∃ front, ∃ literal : StringLiteral, arguments.text literalOf = front ++ [literal.quote] := by
  obtain ⟨front, last, hlast⟩ : ∃ front argument, arguments.pieces literalOf =
      front ++ [(literalOf argument).piece] := arguments.exists_last
  obtain ⟨within, hwithin⟩ := (literalOf last).exists_last
  refine ⟨textOf front ++ within, literalOf last, ?_⟩
  rw [← textOf_pieces, hlast]
  simp [StringLiteral.piece, hwithin]

namespace SettingsStatement

variable (statement : SettingsStatement)

/-- A statement ends with a quote or a parenthesis. -/
theorem exists_last : ∃ front c, statement.text = front ++ [c] ∧ (isQuote c = true ∨ c = ')') := by
  have hquote (literal : StringLiteral) : isQuote literal.quote = true := by
    rcases literal.isQuote with h | h <;> rw [h] <;> rfl
  have hcall {α : Type} {literalOf : α → StringLiteral} (wrapping : Wrapping)
      (arguments : Arguments α) :
      ∃ front c, wrapping.text (arguments.text literalOf) = front ++ [c] ∧
        (isQuote c = true ∨ c = ')') := by
    cases wrapping with
    | bare before =>
      obtain ⟨front, literal, hlast⟩ : ∃ front, ∃ literal : StringLiteral,
          arguments.text literalOf = front ++ [literal.quote] := arguments.exists_last_text
      exact ⟨before.chars ++ front, literal.quote, by simp [Wrapping.text, hlast],
        Or.inl (hquote literal)⟩
    | parenthesized before inside behind =>
      exact ⟨before.chars ++ '(' ::
          (inside.chars ++ (arguments.text literalOf ++ behind.chars)), ')',
        by simp [Wrapping.text], Or.inr rfl⟩
  obtain ⟨front, c, hrest, hc⟩ : ∃ front c, statement.rest = front ++ [c] ∧
      (isQuote c = true ∨ c = ')') := by
    cases statement with
    | includes wrapping mentions => exact hcall wrapping mentions
    | includesBuild wrapping build => exact hcall wrapping (.single build)
    | namesRoot before behind name =>
      obtain ⟨front, hfront⟩ := name.exists_last
      exact ⟨before.chars ++ '=' :: (behind.chars ++ front), name.quote,
        by simp [rest, hfront], Or.inl (hquote name)⟩
  exact ⟨statement.start.toList ++ front, c, by rw [text, hrest, List.append_assoc], hc⟩

/-- A statement has no blanks at its ends. -/
theorem trim_text : Text.trim statement.text = statement.text := by
  have hstatement : IsStatement .kotlin _ _ _ := statement.isStatement
  refine Text.trim_of_ends (fun c hc => Text.isBlank_of_isAsciiAlphanumeric (hstatement.head c hc))
    fun c hc => ?_
  obtain ⟨front, last, htext, hlast⟩ := statement.exists_last
  obtain rfl : last = c := by simpa [htext] using hc
  rcases hlast with h | rfl
  · rw [isQuote, Bool.or_eq_true, beq_iff_eq, beq_iff_eq] at h
    rcases h with rfl | rfl <;> decide
  · decide

end SettingsStatement

/-- Whether a statement includes modules is told by what follows the word. -/
theorem isInclude_append (rest : List Char) :
    isInclude ("include".toList ++ rest) = !rest.head?.any Text.isWord := by
  rw [isInclude, Text.after?_eq_some_iff.mpr rfl]

/-- What the include analyzer makes of a statement: the directories of the modules included. -/
theorem analyze_statement (statement : SettingsStatement) {unit : SourceUnit} {node : Node}
    (htext : unit.text node = statement.text) :
    includeAnalyzer.analyze unit () node =
      .ok (statement.paths?.map (·.map ModulePath.directory)) := by
  simp only [includeAnalyzer, htext, statement.trim_text]
  cases statement with
  | includes wrapping mentions =>
    have hinclude : isInclude (SettingsStatement.includes wrapping mentions).text = true := by
      have hhead := @head_call _ Mention.literal wrapping mentions []
      rw [List.append_nil] at hhead
      rw [SettingsStatement.text, SettingsStatement.start, isInclude_append, SettingsStatement.rest]
      cases hrest : (wrapping.text (mentions.text Mention.literal)).head? with
      | none => rfl
      | some c => simp [(hhead c hrest).2]
    have hword : ∀ c ∈ "include".toList, isQuote c = false := by decide
    have hliterals : HasLiterals (SettingsStatement.includes wrapping mentions).text
        (mentions.toList.map Mention.content) := (wrapping.hasLiterals mentions).skip hword
    have hdirectories : (mentions.toList.map Mention.content).filterMap moduleDirectory? =
        mentions.toList.map fun mention => ['/'].intercalate mention.path.segments := by
      rw [List.filterMap_map, ← List.filterMap_eq_map]
      exact List.filterMap_congr fun mention _ => mention.moduleDirectory?_content
    rw [hinclude, hliterals _ (Nat.le_refl _), hdirectories]
    simp [Arguments.toList, SettingsStatement.paths?, ModulePath.directory]
  | includesBuild wrapping build =>
    have hword : "includeBuild".toList = "include".toList ++ "Build".toList := by decide +kernel
    have hinclude : isInclude (SettingsStatement.includesBuild wrapping build).text = false := by
      rw [SettingsStatement.text, SettingsStatement.start, hword, List.append_assoc,
        isInclude_append]
      rfl
    rw [hinclude]
    rfl
  | namesRoot before behind name =>
    have hinclude : isInclude (SettingsStatement.namesRoot before behind name).text = false := by
      rw [SettingsStatement.text, SettingsStatement.start, isInclude]
      rfl
    rw [hinclude]
    rfl

/-! ## Settings scripts -/

/-- The paths of the modules that some statements include, in their order. -/
def mentionedPaths (statements : List SettingsStatement) : List ModulePath :=
  statements.flatMap fun statement => statement.paths?.getD []

/-- A settings script of statements that include modules, include builds and name the root project
is accepted in both dialects, whatever its layout. Its modules are those of the paths that are
mentioned, each once, in the order in which they are first mentioned. -/
theorem includedModules_written {statements : List SettingsStatement} {source : List Char}
    (hwritten : Script.Written false SettingsStatement.text true statements source)
    (dialect : Dialect) {path : Path} (hpath : Language.ofPath? path = some dialect.language) :
    ∃ unit, SourceUnit.ofText path source = .ok unit ∧
      (includeSurvey.collect unit).problems = [] ∧
      ∃ paths : List ModulePath, includedModules unit = paths.map ModulePath.directory ∧
        paths.Nodup ∧ (∀ path, path ∈ paths ↔ path ∈ mentionedPaths statements) ∧
        paths.Pairwise fun path next =>
          (mentionedPaths statements).idxOf path < (mentionedPaths statements).idxOf next := by
  obtain ⟨unit, hunit, -, hroot, hnodes⟩ := hwritten.exists_unit (fun h => nomatch h)
    (fun statement _ => ⟨_, statement.isStatement⟩) hpath
  have hall : ∀ node, includeSurvey.findingsAt unit () node =
      includeAnalyzer.findings unit () node := fun node => Findings.append_empty _
  have hnone : includeSurvey.findingsAt unit () unit.root = .empty := by
    refine Survey.findingsAt_of_not_taken ?_ unit ()
    rw [hroot]
    decide
  obtain ⟨hcontents, hproblems⟩ := Survey.collect_of_statements hnone
    (hnodes.imp fun statement node ⟨hkind, hchildren, htext⟩ => by
      have hfound := Analyzer.findings_of_ok (by rw [hkind]; exact List.mem_singleton_self _)
        (analyze_statement statement htext)
      rw [← hall] at hfound
      exact ⟨hchildren, hfound⟩)
  have hdirectories : (includeSurvey.collect unit).contents.flatten =
      (mentionedPaths statements).map ModulePath.directory := by
    rw [hcontents, mentionedPaths, List.map_flatMap, List.flatten_eq_flatMap, List.flatMap_assoc]
    refine List.flatMap_congr fun statement _ => ?_
    cases statement.paths? <;> simp
  have hmodules : includedModules unit =
      firstOccurrences (includeSurvey.collect unit).contents.flatten := rfl
  refine ⟨unit, hunit, hproblems, firstOccurrences (mentionedPaths statements), ?_,
    nodup_firstOccurrences _, fun path => mem_firstOccurrences, pairwise_firstOccurrences _⟩
  rw [hmodules, hdirectories, firstOccurrences_map ModulePath.directory_injective]

/-- Two statements that include modules, one of them again, behind others and a comment. -/
theorem includedModules_written_example :
    let source := "rootProject.name = 'demo'\nincludeBuild(\"logic\")\n// modules\n".toList ++
      "include(\":app\", ':libs:core')\ninclude 'app'\n".toList
    (∃ unit, SourceUnit.ofText ⟨"settings.gradle.kts"⟩ source = .ok unit ∧
      includedModules unit = ["app", "libs/core"]) ∧
    ∃ unit, SourceUnit.ofText ⟨"settings.gradle"⟩ source = .ok unit ∧
      includedModules unit = ["app", "libs/core"] := by
  intro source
  let nothing : Blanks := ⟨[], by decide⟩
  let blank : Blanks := ⟨[' '], by decide⟩
  let app : ModulePath := ⟨["app".toList], by decide, by decide, by decide⟩
  let core : ModulePath := ⟨["libs".toList, "core".toList], by decide, by decide, by decide⟩
  let root : SettingsStatement :=
    .namesRoot blank blank ⟨'\'', "demo'".toList, Or.inr rfl, by decide +kernel⟩
  let build : SettingsStatement := .includesBuild (.parenthesized nothing nothing nothing)
    ⟨'"', "logic\"".toList, Or.inl rfl, by decide +kernel⟩
  let both : SettingsStatement := .includes (.parenthesized nothing nothing nothing)
    ⟨⟨app, true, '"', Or.inl rfl⟩, [((nothing, blank), ⟨core, true, '\'', Or.inr rfl⟩)]⟩
  let again : SettingsStatement := .includes (.bare blank) (.single ⟨app, false, '\'', Or.inr rfl⟩)
  have hsource : source = [] ++ (root.text ++ ("\n".toList ++ (build.text ++
      ("\n// modules\n".toList ++ (both.text ++ ("\n".toList ++ (again.text ++
        "\n".toList))))))) := by decide +kernel
  have hbreak : Script.Layout false true "\n".toList := .newline .nil
  have hcomment : Script.Layout false true "\n// modules\n".toList :=
    .newline (.lineComment (by decide : '\n' ∉ " modules".toList) .nil)
  have hwritten :
      Script.Written false SettingsStatement.text true [root, build, both, again] source := by
    rw [hsource]
    exact .statement .nil (Or.inl rfl) (.statement hbreak (Or.inr rfl)
      (.statement hcomment (Or.inr rfl) (.statement hbreak (Or.inr rfl)
        (.ending (.layout hbreak)))))
  have hpaths : (firstOccurrences (mentionedPaths [root, build, both, again])).map
      ModulePath.directory = ["app", "libs/core"] := by decide +kernel
  constructor
  · obtain ⟨unit, hunit, -, paths, hmodules, hnodup, hmem, horder⟩ :=
      includedModules_written hwritten .kotlin
        (by decide : Language.ofPath? ⟨"settings.gradle.kts"⟩ = _)
    exact ⟨unit, hunit, by rw [hmodules, eq_firstOccurrences hnodup hmem horder, hpaths]⟩
  · obtain ⟨unit, hunit, -, paths, hmodules, hnodup, hmem, horder⟩ :=
      includedModules_written hwritten .groovy
        (by decide : Language.ofPath? ⟨"settings.gradle"⟩ = _)
    exact ⟨unit, hunit, by rw [hmodules, eq_firstOccurrences hnodup hmem horder, hpaths]⟩

end CorpusFacts.Gradle
