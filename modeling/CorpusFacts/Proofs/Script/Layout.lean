import CorpusFacts.Proofs.Script.Moves
import CorpusFacts.Proofs.Script.PieceEnds

/-!
# Blanks, line breaks and comments

What stands between the statements of a script: blanks, line breaks, semicolons and comments. It is
described by the characters that it is written with. Each of its pieces is read as such behind every
token, whatever follows it.
-/

namespace CorpusFacts.Script

variable {dialect : Dialect} {tail : List Piece}

/-! ## Single pieces -/

/-- Pieces that are read one after the other behind every token. -/
def ReadsAlways (dialect : Dialect) (pieces : List Piece) : Prop :=
  ∀ before, (rule dialect).Reads before pieces

/-- The pieces of some blanks. -/
def blankPieces (blanks : List Char) : List Piece :=
  blanks.map fun c => ⟨.blank, [c]⟩

@[simp] theorem textOf_blankPieces (blanks : List Char) : textOf (blankPieces blanks) = blanks := by
  induction blanks with
  | nil => rfl
  | cons c blanks ih => exact congrArg (c :: ·) ih

theorem isBlank_of_isGap {c : Char} (h : isGap c = true) : Text.isBlank c = true := by
  simp only [isGap, Bool.or_eq_true, beq_iff_eq] at h
  rcases h with ((rfl | rfl) | rfl) | rfl <;> decide

theorem isWordChar_of_isGap {c : Char} (h : isGap c = true) : isWordChar c = false := by
  simp only [isGap, Bool.or_eq_true, beq_iff_eq] at h
  rcases h with ((rfl | rfl) | rfl) | rfl <;> decide

/-- Blanks inside of a line. -/
structure Blanks where
  /-- Their characters. -/
  chars : List Char
  /-- They are blanks of a line. -/
  isGap : ∀ c ∈ chars, isGap c = true

theorem Blanks.isBlank (blanks : Blanks) : ∀ c ∈ blanks.chars, Text.isBlank c = true :=
  fun c hc => isBlank_of_isGap (blanks.isGap c hc)

/-- Where blanks and what follows them start with certain characters, both together do. -/
theorem Blanks.head (blanks : Blanks) {p : Char → Prop} (hgap : ∀ c, Script.isGap c = true → p c)
    {text : List Char} (htext : ∀ c ∈ text.head?, p c) :
    ∀ c ∈ (blanks.chars ++ text).head?, p c := by
  intro c hc
  obtain ⟨chars, hchars⟩ := blanks
  cases chars with
  | nil => exact htext c hc
  | cons d chars =>
    obtain rfl := Option.some.inj hc
    exact hgap d (hchars d (List.mem_cons_self ..))

namespace ReadsAlways

theorem nil : ReadsAlways dialect [] :=
  fun _ => .nil

/-- A piece that is cut off behind every token. -/
theorem cons {kind : PieceKind} {c : Char} {body : List Char}
    (hcuts : ∀ before, Cuts dialect before c (body ++ textOf tail) kind (textOf tail))
    (h : ReadsAlways dialect tail) : ReadsAlways dialect (⟨kind, c :: body⟩ :: tail) :=
  fun before => .cons (hcuts before).nextPiece (h _)

theorem blank {c : Char} (hgap : isGap c = true) (h : ReadsAlways dialect tail) :
    ReadsAlways dialect (⟨.blank, [c]⟩ :: tail) :=
  h.cons fun _ => .blank hgap

theorem blanks (blanks : Blanks) (h : ReadsAlways dialect tail) :
    ReadsAlways dialect (blankPieces blanks.chars ++ tail) := by
  obtain ⟨chars, hgap⟩ := blanks
  induction chars with
  | nil => exact h
  | cons c chars ih =>
    obtain ⟨hc, hchars⟩ := List.forall_mem_cons.mp hgap
    exact (ih hchars).blank hc

theorem newline (h : ReadsAlways dialect tail) :
    ReadsAlways dialect (⟨.token .newline, ['\n']⟩ :: tail) :=
  h.cons fun _ => .newline rfl

theorem semicolon (h : ReadsAlways dialect tail) :
    ReadsAlways dialect (⟨.token .semicolon, [';']⟩ :: tail) :=
  h.cons fun _ => .semicolon rfl

/-- A comment up to the end of its line. -/
theorem lineComment {line : List Char} (hline : '\n' ∉ line)
    (hend : ∀ c ∈ (textOf tail).head?, c = '\n') (h : ReadsAlways dialect tail) :
    ReadsAlways dialect (⟨.lineComment, '/' :: '/' :: line⟩ :: tail) := by
  have hslash : '\n' ∉ '/' :: line := by simpa using hline
  exact h.cons fun _ => .lineComment rfl rfl (takeWhile_line hslash hend).2

/-- A word, if what follows does not go on with it. -/
theorem word {c : Char} {body : List Char} (hall : ∀ d ∈ c :: body, isWordChar d = true)
    (hend : ∀ d ∈ (textOf tail).head?, isWordChar d = false) (h : ReadsAlways dialect tail) :
    ReadsAlways dialect (⟨.token .word, c :: body⟩ :: tail) := by
  obtain ⟨hc, hbody⟩ := List.forall_mem_cons.mp hall
  have hdrop : (body ++ []).dropWhile isWordChar = [] := by simpa using hbody
  exact h.cons fun _ => .word hc (dropWhile_follows hend hdrop)

/-- An identifier between backticks. -/
theorem backtick {name : List Char} (hname : ∀ c ∈ name, c ≠ '\n' ∧ c ≠ '`')
    (h : ReadsAlways dialect tail) :
    ReadsAlways dialect (⟨.token .word, '`' :: (name ++ ['`'])⟩ :: tail) := by
  refine h.cons fun _ => .backtick rfl ?_
  generalize '`' :: (name ++ ['`'] ++ textOf tail) = start
  induction name with
  | nil => simp [afterBacktick]
  | cons c name ih =>
    obtain ⟨⟨hbreak, hclose⟩, hrest⟩ := List.forall_mem_cons.mp hname
    simpa [afterBacktick, hbreak, hclose] using ih hrest

/-- A mark that starts nothing longer. -/
theorem mark {c : Char} (hlone : isLoneChar c = true) (hslash : c ≠ '/')
    (hword : isWordChar c = false) (hopener : Bracket.ofOpener? c = none)
    (hcloser : Bracket.ofCloser? c = none) (h : ReadsAlways dialect tail) :
    ReadsAlways dialect (⟨.token (.punct c), [c]⟩ :: tail) :=
  h.cons fun _ => .punct hlone hslash hword hopener hcloser

theorem opening {c : Char} {bracket : Bracket} (hc : Bracket.ofOpener? c = some bracket)
    (h : ReadsAlways dialect tail) :
    ReadsAlways dialect (⟨.token (.opening bracket), [c]⟩ :: tail) :=
  h.cons fun _ => .opening bracket hc

theorem closing {c : Char} {bracket : Bracket} (hc : Bracket.ofCloser? c = some bracket)
    (h : ReadsAlways dialect tail) :
    ReadsAlways dialect (⟨.token (.closing bracket), [c]⟩ :: tail) :=
  h.cons fun _ => .closing bracket hc

end ReadsAlways

/-! ## Comments between delimiters -/

/-- What stands between the delimiters of a comment. Where comments nest, this may be whole
comments. Apart from these no delimiter is in it, nor does it make up one with those around it. -/
inductive CommentBody (nests : Bool) : List Char → Prop
  /-- Nothing. -/
  | nil : CommentBody nests []
  /-- A character that starts no delimiter. -/
  | char {c : Char} {body : List Char} (hopen : c = '/' → (body ++ ['*']).head? ≠ some '*')
      (hclose : c = '*' → body.head? ≠ some '/') (hbody : CommentBody nests body) :
      CommentBody nests (c :: body)
  /-- A comment inside. -/
  | nested {inner body : List Char} (hnests : nests = true) (hinner : CommentBody nests inner)
      (hbody : CommentBody nests body) :
      CommentBody nests ('/' :: '*' :: (inner ++ '*' :: '/' :: body))

/-- Behind the body of a comment its own delimiter closes it. -/
theorem CommentBody.afterBlockComment {nests deep : Bool} {body : List Char}
    (hbody : CommentBody nests body) (hdeep : nests = true → deep = true)
    (start : List Char) (depth : Nat) (rest : List Char) :
    afterBlockComment deep start (depth + 1) (body ++ '*' :: '/' :: rest) =
      if depth = 0 then .ok rest else Script.afterBlockComment deep start depth rest := by
  induction hbody generalizing depth rest with
  | nil => simp [Script.afterBlockComment]
  | @char c body hopen hclose _ ih =>
    -- The next character is that of the body, or the star that closes the comment.
    obtain ⟨d, text, htext, hd⟩ : ∃ d text, body ++ '*' :: '/' :: rest = d :: text ∧
        (body ++ ['*']).head? = some d := by
      cases body with
      | nil => exact ⟨'*', _, rfl, rfl⟩
      | cons d body => exact ⟨d, _, rfl, rfl⟩
    have hcloses : (c == '*' && d == '/') = false := by
      rw [Bool.and_eq_false_iff, beq_eq_false_iff_ne, beq_eq_false_iff_ne, ← not_and_or]
      rintro ⟨hc, rfl⟩
      refine hclose hc ?_
      cases body with
      | nil => simp at hd
      | cons e body => simpa using hd
    have hopens : (c == '/' && d == '*') = false := by
      rw [Bool.and_eq_false_iff, beq_eq_false_iff_ne, beq_eq_false_iff_ne, ← not_and_or]
      rintro ⟨hc, rfl⟩
      exact hopen hc hd
    rw [← ih, List.cons_append, htext, Script.afterBlockComment, hcloses, Bool.and_assoc, hopens]
    simp
  | @nested inner body hnests _ _ ihinner ihbody =>
    have hopens : Script.afterBlockComment deep start (depth + 1)
        ('/' :: '*' :: (inner ++ '*' :: '/' :: body) ++ '*' :: '/' :: rest) =
        Script.afterBlockComment deep start (depth + 1 + 1)
          (inner ++ '*' :: '/' :: (body ++ '*' :: '/' :: rest)) := by
      rw [List.cons_append, List.cons_append, Script.afterBlockComment, hdeep hnests]
      simp
    rw [hopens, ihinner, if_neg (Nat.succ_ne_zero depth), ihbody]

/-- A comment between delimiters. -/
theorem ReadsAlways.blockComment {nests : Bool} {body : List Char}
    (hbody : CommentBody nests body) (hnests : nests = true → dialect = .kotlin)
    (h : ReadsAlways dialect tail) :
    ReadsAlways dialect (⟨.blockComment, '/' :: '*' :: (body ++ ['*', '/'])⟩ :: tail) := by
  refine h.cons fun _ => .blockComment rfl rfl ?_
  have hdeep : nests = true → (dialect == .kotlin) = true := fun h => by simp [hnests h]
  simpa using hbody.afterBlockComment hdeep _ 0 (textOf tail)

/-! ## Between statements -/

/-- What stands between two statements. It separates them if there is a line break or semicolon in
it outside of comments. -/
inductive Layout (nests : Bool) : (separates : Bool) → List Char → Prop
  /-- Nothing. -/
  | nil : Layout nests false []
  /-- A blank. -/
  | blank {separates : Bool} {c : Char} {text : List Char} (hgap : isGap c = true)
      (hrest : Layout nests separates text) : Layout nests separates (c :: text)
  /-- A line break. -/
  | newline {separates : Bool} {text : List Char} (hrest : Layout nests separates text) :
      Layout nests true ('\n' :: text)
  /-- A semicolon. -/
  | semicolon {separates : Bool} {text : List Char} (hrest : Layout nests separates text) :
      Layout nests true (';' :: text)
  /-- A comment up to the end of its line. -/
  | lineComment {separates : Bool} {line text : List Char} (hline : '\n' ∉ line)
      (hrest : Layout nests separates text) :
      Layout nests true ('/' :: '/' :: (line ++ '\n' :: text))
  /-- A comment between delimiters. -/
  | blockComment {separates : Bool} {body text : List Char} (hbody : CommentBody nests body)
      (hrest : Layout nests separates text) :
      Layout nests separates ('/' :: '*' :: (body ++ '*' :: '/' :: text))

/-- Characters that a layout starts with. -/
def startsLayout (c : Char) : Bool :=
  isGap c || c == '\n' || c == ';' || c == '/'

/-- The characters that a layout starts with belong to no word and to no literal. -/
theorem plain_of_startsLayout {c : Char} (h : startsLayout c = true) :
    isWordChar c = false ∧ c ≠ '"' ∧ c ≠ '\'' := by
  simp only [startsLayout, isGap, Bool.or_eq_true, beq_iff_eq] at h
  rcases h with (((((rfl | rfl) | rfl) | rfl) | rfl) | rfl) | rfl <;> decide

/-- The tokens among the pieces of a layout separate statements. -/
structure IsLayout (separates : Bool) (gaps : List Piece) : Prop where
  /-- There is no other token. -/
  plain : ∀ gap ∈ gaps, ∀ kind, gap.kind = .token kind → kind.isSeparator = true
  /-- There is such a token, if it is to separate. -/
  separates : separates = true → ∃ gap ∈ gaps, ∃ kind, gap.kind = .token kind

namespace Layout

variable {nests separates : Bool} {text : List Char}

theorem head (h : Layout nests separates text) : ∀ c ∈ text.head?, startsLayout c = true := by
  intro c hc
  cases h with
  | nil => cases hc
  | blank hgap _ =>
    obtain rfl := Option.some.inj hc
    simp [startsLayout, hgap]
  | _ => obtain rfl := Option.some.inj hc; decide

/-- A layout that separates is not empty. -/
theorem ne_nil (h : Layout nests true text) : text ≠ [] := by
  cases h <;> simp

/-- A layout is read as such, whatever follows it. -/
theorem exists_pieces (h : Layout nests separates text)
    (hnests : nests = true → dialect = .kotlin) :
    ∃ gaps, textOf gaps = text ∧ IsLayout separates gaps ∧
      ∀ tail, ReadsAlways dialect tail → ReadsAlways dialect (gaps ++ tail) := by
  induction h with
  | nil => exact ⟨[], rfl, ⟨by simp, by simp⟩, fun _ htail => htail⟩
  | @blank _ c _ hgap _ ih =>
    obtain ⟨gaps, htext, hlayout, hreads⟩ := ih
    refine ⟨⟨.blank, [c]⟩ :: gaps, by simp [htext], ⟨?_, ?_⟩, fun tail htail =>
      (hreads tail htail).blank hgap⟩
    · simpa using hlayout.plain
    · simpa using hlayout.separates
  | newline _ ih =>
    obtain ⟨gaps, htext, hlayout, hreads⟩ := ih
    refine ⟨⟨.token .newline, ['\n']⟩ :: gaps, by simp [htext], ⟨?_, by simp⟩, fun tail htail =>
      (hreads tail htail).newline⟩
    simpa using hlayout.plain
  | semicolon _ ih =>
    obtain ⟨gaps, htext, hlayout, hreads⟩ := ih
    refine ⟨⟨.token .semicolon, [';']⟩ :: gaps, by simp [htext], ⟨?_, by simp⟩, fun tail htail =>
      (hreads tail htail).semicolon⟩
    simpa using hlayout.plain
  | @lineComment _ line _ hline _ ih =>
    obtain ⟨gaps, htext, hlayout, hreads⟩ := ih
    refine ⟨⟨.lineComment, '/' :: '/' :: line⟩ :: ⟨.token .newline, ['\n']⟩ :: gaps,
      by simp [htext], ⟨?_, by simp⟩,
      fun tail htail => (hreads tail htail).newline.lineComment hline (by simp)⟩
    simpa using hlayout.plain
  | @blockComment _ body _ hbody _ ih =>
    obtain ⟨gaps, htext, hlayout, hreads⟩ := ih
    refine ⟨⟨.blockComment, '/' :: '*' :: (body ++ ['*', '/'])⟩ :: gaps, by simp [htext], ⟨?_, ?_⟩,
      fun tail htail => (hreads tail htail).blockComment hbody hnests⟩
    · simpa using hlayout.plain
    · simpa using hlayout.separates

end Layout

/-- What stands behind the last statement: a layout, or one with a comment behind it that ends with
the script. -/
inductive Ending (nests : Bool) : List Char → Prop
  /-- A layout. -/
  | layout {separates : Bool} {text : List Char} (h : Layout nests separates text) :
      Ending nests text
  /-- A comment on a last line without a line break. -/
  | comment {separates : Bool} {text line : List Char} (h : Layout nests separates text)
      (hline : '\n' ∉ line) : Ending nests (text ++ '/' :: '/' :: line)

namespace Ending

variable {nests : Bool} {text : List Char}

theorem head (h : Ending nests text) : ∀ c ∈ text.head?, startsLayout c = true := by
  cases h with
  | layout h => exact h.head
  | @comment _ text line h _ =>
    cases text with
    | nil =>
      intro c hc
      obtain rfl := Option.some.inj hc
      decide
    | cons c text => exact h.head

/-- What stands behind the last statement is read as such. -/
theorem exists_pieces (h : Ending nests text) (hnests : nests = true → dialect = .kotlin) :
    ∃ gaps, textOf gaps = text ∧ IsLayout false gaps ∧ ReadsAlways dialect gaps := by
  cases h with
  | layout h =>
    obtain ⟨gaps, htext, hlayout, hreads⟩ := h.exists_pieces hnests
    exact ⟨gaps, htext, ⟨hlayout.plain, by simp⟩, by simpa using hreads [] .nil⟩
  | @comment _ text line h hline =>
    obtain ⟨gaps, htext, hlayout, hreads⟩ := h.exists_pieces hnests
    refine ⟨gaps ++ [⟨.lineComment, '/' :: '/' :: line⟩], by simp [htext], ⟨?_, by simp⟩,
      hreads _ (ReadsAlways.nil.lineComment hline (by simp))⟩
    intro gap hgap kind hkind
    rcases List.mem_append.mp hgap with hgap | hgap
    · exact hlayout.plain gap hgap kind hkind
    · rw [List.mem_singleton.mp hgap] at hkind
      cases hkind

end Ending

end CorpusFacts.Script
