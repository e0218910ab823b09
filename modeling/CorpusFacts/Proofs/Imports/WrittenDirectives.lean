import CorpusFacts.Imports.Imports
import CorpusFacts.Proofs.Analysis.Calls
import CorpusFacts.Proofs.Script.Statements
import CorpusFacts.Proofs.Text.Splitting

/-!
# Directives as they are written

A package or import is written as a keyword, blanks, and identifiers with dots between them; an
alias or a star may follow the name of an import. A Kotlin source of such directives, in any layout,
is accepted, and the names read from it are those written, in their order.
-/

namespace CorpusFacts.Imports

open Script (LeafKind Layout ReadsAlways IsStatement Stays Written isGap isWordChar startsLayout
  blankPieces kindsOf)

-- What holds of the characters in a list is decided along the list, not for all characters.
local instance decidableForall {p : Char → Prop} [DecidablePred p] (text : List Char) :
    Decidable (∀ c ∈ text, p c) :=
  List.decidableBAll p text

/-! ## Identifiers -/

/-- The characters of identifiers: letters, digits and underscores. -/
def isNameChar (c : Char) : Bool :=
  Text.isAlphanumeric c || c == '_'

theorem isWordChar_of_isNameChar {c : Char} (h : isNameChar c = true) : isWordChar c = true := by
  simp only [isNameChar, Text.isAlphanumeric, Bool.or_eq_true, beq_iff_eq] at h
  rcases h with h | rfl
  · split at h
    · simp [isWordChar, h]
    · rename_i hlarge
      have hbeyond : 128 ≤ c.toNat := Nat.not_lt.mp hlarge
      simp [isWordChar, hbeyond]
  · decide

theorem isBlank_of_isNameChar {c : Char} (h : isNameChar c = true) : Text.isBlank c = false := by
  by_contra hblank
  rw [Bool.not_eq_false] at hblank
  rw [isNameChar, Text.isAlphanumeric_of_isBlank hblank, Bool.false_or, beq_iff_eq] at h
  subst h
  exact absurd hblank (by decide)

/-- An identifier, with or without backticks around it. -/
structure Identifier where
  /-- Its characters. -/
  name : List Char
  /-- Whether backticks are around it. -/
  isQuoted : Bool
  /-- It is not empty. -/
  name_ne_nil : name ≠ []
  /-- It is made of letters, digits and underscores. -/
  isName : ∀ c ∈ name, isNameChar c = true

namespace Identifier

/-- The text of an identifier. -/
def text (identifier : Identifier) : List Char :=
  if identifier.isQuoted then '`' :: (identifier.name ++ ['`']) else identifier.name

/-- The piece of an identifier. -/
def piece (identifier : Identifier) : Piece :=
  ⟨.token .word, identifier.text⟩

variable (identifier : Identifier) {dialect : Script.Dialect} {tail : List Piece}

theorem exists_cons : ∃ c rest, identifier.text = c :: rest := by
  obtain ⟨c, rest, hname⟩ := List.exists_cons_of_ne_nil identifier.name_ne_nil
  rw [text, hname]
  cases identifier.isQuoted
  · exact ⟨c, rest, rfl⟩
  · exact ⟨'`', _, rfl⟩

theorem text_ne_nil : identifier.text ≠ [] := by
  obtain ⟨c, rest, htext⟩ := identifier.exists_cons
  rw [htext]
  exact List.cons_ne_nil c rest

/-- The characters of an identifier. -/
theorem of_mem_text {c : Char} (h : c ∈ identifier.text) : c = '`' ∨ isNameChar c = true := by
  rw [text] at h
  split at h
  · simp only [List.mem_cons, List.mem_append, List.not_mem_nil, or_false] at h
    rcases h with rfl | h | rfl
    · exact Or.inl rfl
    · exact Or.inr (identifier.isName c h)
    · exact Or.inl rfl
  · exact Or.inr (identifier.isName c h)

/-- Without backticks an identifier is its name. -/
theorem filter_text : identifier.text.filter (· != '`') = identifier.name := by
  have hname : identifier.name.filter (· != '`') = identifier.name := by
    rw [List.filter_eq_self]
    intro c hc
    rw [bne_iff_ne]
    rintro rfl
    exact absurd (identifier.isName '`' hc) (by decide)
  rw [text]
  split
  · simp [hname]
  · exact hname

/-- An identifier is a word, if what follows does not go on with it. -/
theorem reads (hend : ∀ c ∈ (textOf tail).head?, isWordChar c = false)
    (h : ReadsAlways dialect tail) : ReadsAlways dialect (identifier.piece :: tail) := by
  rw [piece, text]
  split
  · refine h.backtick fun c hc => ?_
    have hname := identifier.isName c hc
    constructor <;> rintro rfl <;> exact absurd hname (by decide)
  · obtain ⟨c, rest, hname⟩ := List.exists_cons_of_ne_nil identifier.name_ne_nil
    rw [hname]
    refine h.word (fun d hd => isWordChar_of_isNameChar (identifier.isName d ?_)) hend
    rwa [hname]

end Identifier

/-! ## Paths -/

/-- Identifiers with dots between them, none of which is a word with a meaning of its own in
directives. -/
structure DottedPath where
  /-- The identifiers. -/
  identifiers : List Identifier
  /-- There is one. -/
  ne_nil : identifiers ≠ []
  /-- None of them introduces an alias. -/
  ne_as : ∀ identifier ∈ identifiers, identifier.name ≠ "as".toList
  /-- None of them is a modifier. -/
  ne_static : ∀ identifier ∈ identifiers, identifier.name ≠ "static".toList

namespace DottedPath

/-- The text of a path. -/
def text (path : DottedPath) : List Char :=
  ['.'].intercalate (path.identifiers.map Identifier.text)

/-- The name that a path stands for. -/
def name (path : DottedPath) : List Char :=
  ['.'].intercalate (path.identifiers.map Identifier.name)

end DottedPath

/-- The pieces of identifiers with dots between them. -/
def dottedPieces : List Identifier → List Piece
  | [] => []
  | [identifier] => [identifier.piece]
  | identifier :: next :: rest =>
    identifier.piece :: ⟨.token (.punct '.'), ['.']⟩ :: dottedPieces (next :: rest)

section DottedPieces

variable {identifiers : List Identifier} {dialect : Script.Dialect} {tail : List Piece}

@[simp] theorem textOf_dottedPieces :
    textOf (dottedPieces identifiers) = ['.'].intercalate (identifiers.map Identifier.text) := by
  induction identifiers with
  | nil => rfl
  | cons identifier rest ih =>
    cases rest with
    | nil => simp [dottedPieces, Identifier.piece]
    | cons next rest =>
      simp only [dottedPieces, textOf_cons, ih, List.map_cons, List.intercalate_cons_cons,
        List.append_assoc, Identifier.piece]

theorem mem_kindsOf_dottedPieces :
    ∀ kind ∈ kindsOf (dottedPieces identifiers), kind = .word ∨ kind = .punct '.' := by
  induction identifiers with
  | nil => simp [dottedPieces]
  | cons identifier rest ih =>
    cases rest with
    | nil => simp [dottedPieces, Identifier.piece]
    | cons next rest => simpa [dottedPieces, Identifier.piece] using ih

theorem exists_last_dottedPieces (hne : identifiers ≠ []) :
    ∃ front identifier, dottedPieces identifiers = front ++ [Identifier.piece identifier] := by
  induction identifiers with
  | nil => exact absurd rfl hne
  | cons identifier rest ih =>
    cases rest with
    | nil => exact ⟨[], identifier, rfl⟩
    | cons next rest =>
      obtain ⟨front, last, hlast⟩ := ih (List.cons_ne_nil next rest)
      exact ⟨identifier.piece :: ⟨.token (.punct '.'), ['.']⟩ :: front, last, by
        rw [dottedPieces, hlast]; rfl⟩

/-- Identifiers and dots are read as such, if what follows does not go on with the last one. -/
theorem reads_dottedPieces (hend : ∀ c ∈ (textOf tail).head?, isWordChar c = false)
    (h : ReadsAlways dialect tail) : ReadsAlways dialect (dottedPieces identifiers ++ tail) := by
  induction identifiers with
  | nil => exact h
  | cons identifier rest ih =>
    cases rest with
    | nil => exact identifier.reads hend h
    | cons next rest =>
      have hdot := ih.mark (c := '.') (by decide) (by decide) (by decide) (by decide) (by decide)
      refine identifier.reads (fun c hc => ?_) hdot
      obtain rfl : '.' = c := Option.some.inj hc
      decide

end DottedPieces

namespace DottedPath

variable (path : DottedPath)

/-- Without backticks a path is the name that it stands for. -/
theorem filter_text : path.text.filter (· != '`') = path.name := by
  have hfilter (identifiers : List Identifier) :
      (['.'].intercalate (identifiers.map Identifier.text)).filter (· != '`') =
        ['.'].intercalate (identifiers.map Identifier.name) := by
    induction identifiers with
    | nil => rfl
    | cons identifier rest ih =>
      cases rest with
      | nil => simpa using identifier.filter_text
      | cons next rest =>
        have hdot : ['.'].filter (· != '`') = ['.'] := rfl
        simp only [List.map_cons, List.intercalate_cons_cons, List.filter_append,
          identifier.filter_text, hdot] at ih ⊢
        rw [ih]
  exact hfilter path.identifiers

/-- The characters of a path are no blanks. -/
theorem isBlank_text : ∀ c ∈ path.text, Text.isBlank c = false := by
  intro c hc
  rcases Text.of_mem_intercalate hc with rfl | ⟨part, hpart, hc⟩
  · decide
  · obtain ⟨identifier, -, rfl⟩ := List.mem_map.mp hpart
    rcases identifier.of_mem_text hc with rfl | hname
    · decide
    · exact isBlank_of_isNameChar hname

theorem map_text_ne_nil : path.identifiers.map Identifier.text ≠ [] :=
  fun h => path.ne_nil (List.map_eq_nil_iff.mp h)

theorem text_ne_nil : path.text ≠ [] := by
  obtain ⟨identifier, hidentifier⟩ := List.exists_mem_of_ne_nil _ path.ne_nil
  obtain ⟨c, rest, htext⟩ := identifier.exists_cons
  exact List.ne_nil_of_mem (Text.mem_intercalate (List.mem_map_of_mem hidentifier)
    (htext ▸ List.mem_cons_self (a := c)))

/-- A path ends with a character of an identifier or a backtick. -/
theorem last_text : ∀ c ∈ path.text.getLast?, c = '`' ∨ isNameChar c = true := by
  intro c hc
  have hne : ∀ part ∈ path.identifiers.map Identifier.text, part ≠ [] := by
    intro part hpart
    obtain ⟨identifier, -, rfl⟩ := List.mem_map.mp hpart
    exact identifier.text_ne_nil
  obtain ⟨part, hpart, hlast⟩ :=
    (Text.ends_of_intercalate ['.'] path.map_text_ne_nil hne).2
  obtain ⟨identifier, -, rfl⟩ := List.mem_map.mp hpart
  rw [text, hlast] at hc
  exact identifier.of_mem_text (List.mem_of_getLast? hc)

/-- A name ends with a character of an identifier. -/
theorem last_name : ∀ c ∈ path.name.getLast?, isNameChar c = true := by
  intro c hc
  have hnames : path.identifiers.map Identifier.name ≠ [] :=
    fun h => path.ne_nil (List.map_eq_nil_iff.mp h)
  have hne : ∀ part ∈ path.identifiers.map Identifier.name, part ≠ [] := by
    intro part hpart
    obtain ⟨identifier, -, rfl⟩ := List.mem_map.mp hpart
    exact identifier.name_ne_nil
  obtain ⟨part, hpart, hlast⟩ := (Text.ends_of_intercalate ['.'] hnames hne).2
  obtain ⟨identifier, -, rfl⟩ := List.mem_map.mp hpart
  rw [name, hlast] at hc
  exact identifier.isName c (List.mem_of_getLast? hc)

theorem name_ne_nil : path.name ≠ [] := by
  obtain ⟨identifier, hidentifier⟩ := List.exists_mem_of_ne_nil _ path.ne_nil
  obtain ⟨c, rest, hname⟩ := List.exists_cons_of_ne_nil identifier.name_ne_nil
  exact List.ne_nil_of_mem (Text.mem_intercalate (List.mem_map_of_mem hidentifier)
    (hname ▸ List.mem_cons_self (a := c)))

/-- A path is no word that its identifiers are not. -/
theorem text_ne {word : List Char} (hdot : '.' ∉ word) (hquote : '`' ∉ word)
    (hne : ∀ identifier ∈ path.identifiers, identifier.name ≠ word) : path.text ≠ word := by
  rintro rfl
  rw [text] at hdot hquote hne
  match hidentifiers : path.identifiers with
  | [] => exact path.ne_nil hidentifiers
  | [identifier] =>
    simp only [hidentifiers, List.map_singleton, List.intercalate_singleton,
      Identifier.text] at hquote hne
    split at hquote
    · simp at hquote
    · rename_i hplain
      exact hne identifier (List.mem_singleton_self _) (by simp [hplain])
  | identifier :: next :: rest =>
    rw [hidentifiers, List.map_cons, List.map_cons, List.intercalate_cons_cons] at hdot
    simp at hdot

end DottedPath

/-! ## Directives -/

/-- Blanks between two words. -/
structure Gap extends Script.Blanks where
  /-- There is one. -/
  ne_nil : chars ≠ []

theorem Gap.head (gap : Gap) (tail : List Piece) :
    ∀ c ∈ (textOf (blankPieces gap.chars ++ tail)).head?, isWordChar c = false := by
  intro c hc
  rw [textOf_append, Script.textOf_blankPieces, List.head?_append_of_ne_nil _ gap.ne_nil] at hc
  exact Script.isWordChar_of_isGap (gap.isGap c (List.mem_of_head? hc))

/-- What may stand behind an imported path. -/
inductive ImportEnd where
  /-- Nothing. -/
  | plain
  /-- A star for all names in the path. -/
  | star
  /-- Another name for what is imported. -/
  | renamed (before behind : Gap) (name : Identifier)

namespace ImportEnd

/-- The text behind a path. -/
def text : ImportEnd → List Char
  | plain => []
  | star => ".*".toList
  | renamed before behind name => before.chars ++ ("as".toList ++ (behind.chars ++ name.text))

/-- The pieces behind a path. -/
def pieces : ImportEnd → List Piece
  | plain => []
  | star => [⟨.token (.punct '.'), ['.']⟩, ⟨.token (.punct '*'), ['*']⟩]
  | renamed before behind name =>
    blankPieces before.chars ++
      ⟨.token .word, "as".toList⟩ :: (blankPieces behind.chars ++ [name.piece])

/-- What stands behind a path without a blank. -/
def attached : ImportEnd → List Char
  | plain => []
  | star => ".*".toList
  | renamed .. => []

end ImportEnd

/-- A directive as it is written. -/
inductive Directive where
  /-- The package of a source. -/
  | package (gap : Gap) (path : DottedPath)
  /-- An import. -/
  | imports (gap : Gap) (path : DottedPath) (ending : ImportEnd)

namespace Directive

/-- The keyword of a directive. -/
def keyword : Directive → String
  | package .. => "package"
  | imports .. => "import"

/-- The blanks behind the keyword. -/
def gap : Directive → Gap
  | package gap _ => gap
  | imports gap _ _ => gap

/-- The path in a directive. -/
def path : Directive → DottedPath
  | package _ path => path
  | imports _ path _ => path

/-- What stands behind the path. -/
def ending : Directive → ImportEnd
  | package .. => .plain
  | imports _ _ ending => ending

/-- The text of a directive. -/
def text (directive : Directive) : List Char :=
  directive.keyword.toList ++
    (directive.gap.chars ++ (directive.path.text ++ directive.ending.text))

/-- What a directive is for. -/
def kind : Directive → LeafKind
  | package .. => .packageDirective
  | imports .. => .importDirective

/-- What a directive says. -/
def fact : Directive → ImportFact
  | package _ path => .package (String.ofList path.name)
  | imports _ path _ => .imports [String.ofList path.name]

/-- The pieces of a directive. -/
def pieces (directive : Directive) : List Piece :=
  ⟨.token .word, directive.keyword.toList⟩ :: (blankPieces directive.gap.chars ++
    (dottedPieces directive.path.identifiers ++ directive.ending.pieces))

end Directive

/-! ## Directives as statements -/

namespace ImportEnd

variable (ending : ImportEnd) {dialect : Script.Dialect} {tail : List Piece}

@[simp] theorem textOf_pieces : textOf ending.pieces = ending.text := by
  cases ending with
  | plain => rfl
  | star => rfl
  | renamed before behind name => simp [pieces, text, Identifier.piece]

theorem mem_kindsOf_pieces : ∀ kind ∈ kindsOf ending.pieces,
    kind = .word ∨ kind = .punct '.' ∨ kind = .punct '*' := by
  cases ending <;> simp [pieces, Identifier.piece]

/-- Behind the last identifier of a path no word goes on. -/
theorem head (hend : ∀ c ∈ (textOf tail).head?, startsLayout c = true) :
    ∀ c ∈ (textOf (ending.pieces ++ tail)).head?, isWordChar c = false := by
  intro c hc
  rw [textOf_append, textOf_pieces] at hc
  cases ending with
  | plain => exact (Script.plain_of_startsLayout (hend c hc)).1
  | star =>
    obtain rfl : '.' = c := Option.some.inj hc
    decide
  | renamed before behind name =>
    rw [text, List.append_assoc, List.head?_append_of_ne_nil _ before.ne_nil] at hc
    exact Script.isWordChar_of_isGap (before.isGap c (List.mem_of_head? hc))

theorem exists_last {identifiers : List Identifier} (hne : identifiers ≠ []) :
    ∃ front last text, dottedPieces identifiers ++ ending.pieces =
      front ++ [⟨.token last, text⟩] ∧ last.isSeparator = false ∧
        ∀ mark, last = .punct mark → mark = '*' := by
  cases ending with
  | plain =>
    obtain ⟨front, last, hlast⟩ := exists_last_dottedPieces hne
    exact ⟨front, .word, last.text, by rw [hlast]; exact List.append_nil _, rfl, by simp⟩
  | star =>
    exact ⟨dottedPieces identifiers ++ [⟨.token (.punct '.'), ['.']⟩], .punct '*', ['*'],
      by simp [pieces], rfl, by simp [eq_comm]⟩
  | renamed before behind name =>
    exact ⟨dottedPieces identifiers ++ (blankPieces before.chars ++
      ⟨.token .word, "as".toList⟩ :: blankPieces behind.chars), .word, name.text,
      by simp [pieces, Identifier.piece], rfl, by simp⟩

theorem reads (hend : ∀ c ∈ (textOf tail).head?, startsLayout c = true)
    (h : ReadsAlways dialect tail) : ReadsAlways dialect (ending.pieces ++ tail) := by
  cases ending with
  | plain => exact h
  | star =>
    have hstar := h.mark (c := '*') (by decide) (by decide) (by decide) (by decide) (by decide)
    exact hstar.mark (c := '.') (by decide) (by decide) (by decide) (by decide) (by decide)
  | renamed before behind name =>
    have hname := (name.reads (fun c hc => (Script.plain_of_startsLayout (hend c hc)).1)
      h).blanks behind.toBlanks
    have has : ReadsAlways dialect (⟨.token .word, "as".toList⟩ ::
        (blankPieces behind.chars ++ name.piece :: tail)) := hname.word (by decide) (behind.head _)
    simpa [pieces] using has.blanks before.toBlanks

end ImportEnd

namespace Directive

variable (directive : Directive) {dialect : Script.Dialect}

theorem keyword_cases : directive.keyword = "package" ∨ directive.keyword = "import" := by
  cases directive <;> simp [keyword]

/-- A directive is one statement. -/
theorem isStatement : IsStatement dialect directive.kind directive.text directive.pieces := by
  refine ⟨?_, ?_, ?_, ?_, ?_, ?_⟩
  · simp [pieces, text, DottedPath.text]
  · rcases directive.keyword_cases with h | h
    · exact ⟨'p', "ackage".toList, _, by rw [pieces, h]; rfl, by decide⟩
    · exact ⟨'i', "mport".toList, _, by rw [pieces, h]; rfl, by decide⟩
  · obtain ⟨front, last, text, hlast, hends⟩ :=
      directive.ending.exists_last directive.path.ne_nil
    exact ⟨⟨.token .word, directive.keyword.toList⟩ :: (blankPieces directive.gap.chars ++ front),
      last, text, by simp [pieces, hlast], hends⟩
  · refine .of_plain fun kind hkind => ?_
    simp only [pieces, Script.kindsOf_token, Script.kindsOf_append, Script.kindsOf_blankPieces,
      List.nil_append, List.mem_cons, List.mem_append] at hkind
    rcases hkind with rfl | hkind | hkind
    · exact ⟨rfl, rfl⟩
    · rcases mem_kindsOf_dottedPieces kind hkind with rfl | rfl <;> exact ⟨rfl, rfl⟩
    · rcases directive.ending.mem_kindsOf_pieces kind hkind with rfl | rfl | rfl <;>
        exact ⟨rfl, rfl⟩
  · intro tail hend htail
    have hpath : ReadsAlways dialect
        (dottedPieces directive.path.identifiers ++ (directive.ending.pieces ++ tail)) :=
      reads_dottedPieces (directive.ending.head hend) (directive.ending.reads hend htail)
    obtain ⟨c, word, hkeyword, hword⟩ : ∃ c word, directive.keyword.toList = c :: word ∧
        ∀ d ∈ c :: word, isWordChar d = true := by
      rcases directive.keyword_cases with h | h <;> rw [h] <;> exact ⟨_, _, rfl, by decide⟩
    rw [pieces, hkeyword]
    simpa using (hpath.blanks directive.gap.toBlanks).word hword (directive.gap.head _)
  · intro start line
    obtain ⟨front, last, hlast⟩ := exists_last_dottedPieces directive.path.ne_nil
    have hlater : kindsOf (blankPieces directive.gap.chars ++
        (dottedPieces directive.path.identifiers ++ directive.ending.pieces)) ≠ [] := by
      simp [hlast, Identifier.piece]
    rw [pieces, Script.leafKind_tokensFrom hlater]
    cases directive with
    | package => rw [keyword, if_neg (by decide), if_pos rfl]; rfl
    | imports => rw [keyword, if_pos rfl]; rfl

end Directive

/-! ## Names in directives -/

/-- Behind a name a star with its dot is no part of it. -/
theorem withoutStar_attached {name : List Char} (hlast : ∀ c ∈ name.getLast?, isNameChar c = true)
    (ending : ImportEnd) : withoutStar (name ++ ending.attached) = name := by
  have hdots : Text.dropEndWhile (· == '.') name = name := by
    refine Text.dropEndWhile_of_last fun c hc => ?_
    rw [beq_eq_false_iff_ne]
    rintro rfl
    exact absurd (hlast '.' hc) (by decide)
  have hplain : withoutStar name = name := by
    rw [withoutStar, if_neg, hdots]
    rw [List.isSuffixOf_iff_suffix]
    rintro ⟨front, rfl⟩
    exact absurd (hlast '*' (by simp)) (by decide)
  cases ending with
  | star =>
    have hsuffix : ".*".toList.isSuffixOf (name ++ ".*".toList) = true := by
      rw [List.isSuffixOf_iff_suffix]
      exact List.suffix_append _ _
    have htake : (name ++ ".*".toList).take ((name ++ ".*".toList).length - 2) = name := by
      simp
    rw [ImportEnd.attached, withoutStar, if_pos hsuffix, htake, hdots]
  | plain => rw [ImportEnd.attached, List.append_nil, hplain]
  | renamed => rw [ImportEnd.attached, List.append_nil, hplain]

namespace DottedPath

variable (path : DottedPath) (ending : ImportEnd)

/-- What follows a path without a blank makes it no word that its identifiers are not. -/
theorem attached_ne {word : List Char} (hdot : '.' ∉ word) (hquote : '`' ∉ word)
    (hne : ∀ identifier ∈ path.identifiers, identifier.name ≠ word) :
    path.text ++ ending.attached ≠ word := by
  cases ending with
  | star =>
    rintro rfl
    simp [ImportEnd.attached] at hdot
  | plain => simpa [ImportEnd.attached] using path.text_ne hdot hquote hne
  | renamed => simpa [ImportEnd.attached] using path.text_ne hdot hquote hne

theorem isBlank_attached : ∀ c ∈ path.text ++ ending.attached, Text.isBlank c = false := by
  intro c hc
  rcases List.mem_append.mp hc with hc | hc
  · exact path.isBlank_text c hc
  · cases ending with
    | star =>
      have hstar : ∀ c ∈ ".*".toList, Text.isBlank c = false := by decide
      exact hstar c hc
    | plain => cases hc
    | renamed => cases hc

/-- The words of a path and of what follows it. -/
theorem words_text : Text.words (path.text ++ ending.text) =
    (path.text ++ ending.attached) ::
      match ending with
      | .plain | .star => []
      | .renamed _ _ name => ["as".toList, name.text] := by
  have hattached : Text.words (path.text ++ ending.attached) = [path.text ++ ending.attached] :=
    Text.words_of_plain (by simp [path.text_ne_nil]) (path.isBlank_attached ending)
  cases ending with
  | plain => exact hattached
  | star => exact hattached
  | renamed before behind name =>
    rw [ImportEnd.attached, List.append_nil] at hattached ⊢
    have hname : Text.words name.text = [name.text] := by
      refine Text.words_of_plain name.text_ne_nil fun c hc => ?_
      rcases name.of_mem_text hc with rfl | hc
      · decide
      · exact isBlank_of_isNameChar hc
    have has : Text.words "as".toList = ["as".toList] := rfl
    rw [ImportEnd.text, Text.words_append_blanks before.ne_nil before.isBlank,
      Text.words_append_blanks behind.ne_nil behind.isBlank, hattached, hname, has]
    rfl

/-- The words of the name are the path, with a star if there is one. -/
theorem nameWords_text :
    nameWords (path.text ++ ending.text) = [path.text ++ ending.attached] := by
  have hstatic : path.text ++ ending.attached ≠ "static".toList :=
    path.attached_ne ending (by decide) (by decide) path.ne_static
  have has : path.text ++ ending.attached ≠ "as".toList :=
    path.attached_ne ending (by decide) (by decide) path.ne_as
  have hhead : (path.text ++ ending.attached != "as".toList) = true := bne_iff_ne.mpr has
  rw [nameWords, words_text]
  simp only [List.head?_cons, Option.some_beq_some, beq_eq_false_iff_ne.mpr hstatic,
    Bool.false_eq_true, if_false, List.takeWhile_cons, hhead, if_true]
  cases ending <;> simp

/-- What stands behind the keyword of a directive ends neither with a blank nor with a semicolon. -/
theorem last_directive : ∀ c ∈ (path.text ++ ending.text).getLast?,
    Text.isBlank c = false ∧ c ≠ ';' := by
  have hplain (c : Char) (hc : c = '`' ∨ isNameChar c = true) :
      Text.isBlank c = false ∧ c ≠ ';' := by
    rcases hc with rfl | hc
    · decide
    · refine ⟨isBlank_of_isNameChar hc, ?_⟩
      rintro rfl
      exact absurd hc (by decide)
  intro c hc
  cases ending with
  | plain =>
    rw [ImportEnd.text, List.append_nil] at hc
    exact hplain c (path.last_text c hc)
  | star =>
    obtain rfl : '*' = c := by simpa [ImportEnd.text] using hc
    decide
  | renamed before behind name =>
    rw [ImportEnd.text, ← List.append_assoc, ← List.append_assoc, ← List.append_assoc,
      List.getLast?_append_of_ne_nil _ name.text_ne_nil] at hc
    exact hplain c (name.of_mem_text (List.mem_of_getLast? hc))

end DottedPath

namespace Directive

variable (directive : Directive)

/-- The name in a directive is that of its path. -/
theorem directiveName?_text :
    directiveName? directive.keyword directive.text = some directive.path.name := by
  let path := directive.path
  have hlast := path.last_directive directive.ending
  have hne : path.text ++ directive.ending.text ≠ [] := by simp [path.text_ne_nil]
  have hhead : ∀ c ∈ (path.text ++ directive.ending.text).head?, Text.isBlank c = false := by
    rw [List.head?_append_of_ne_nil _ path.text_ne_nil]
    exact fun c hc => path.isBlank_text c (List.mem_of_head? hc)
  have htrim : Text.trim directive.text = directive.text := by
    have hstatement : IsStatement .kotlin _ _ _ := directive.isStatement
    refine Text.trim_of_ends (fun c hc =>
      Text.isBlank_of_isAsciiAlphanumeric (hstatement.head c hc)) fun c hc => ?_
    rw [text, ← List.append_assoc, List.getLast?_append_of_ne_nil _ hne] at hc
    exact (hlast c hc).1
  have hafter : Text.after? directive.keyword.toList directive.text =
      some (directive.gap.chars ++ (path.text ++ directive.ending.text)) :=
    Text.after?_eq_some_iff.mpr rfl
  have hbody := Text.trim_append directive.gap.isBlank hhead fun c hc => (hlast c hc).1
  have hend : Text.dropEndWhile (· == ';') (path.text ++ directive.ending.text) =
      path.text ++ directive.ending.text :=
    Text.dropEndWhile_of_last fun c hc => beq_eq_false_iff_ne.mpr (hlast c hc).2
  have hname : ((path.text ++ directive.ending.attached).filter (· != '`')) =
      path.name ++ directive.ending.attached := by
    rw [List.filter_append, path.filter_text]
    cases directive.ending <;> rfl
  have hstar := withoutStar_attached path.last_name directive.ending
  rw [directiveName?, htrim, hafter]
  simp only [Option.bind_eq_bind, Option.bind_some, hbody, hend, path, DottedPath.nameWords_text,
    List.flatten_cons, List.flatten_nil, List.append_nil, hname, hstar]
  rw [if_neg]
  simpa using path.name_ne_nil

end Directive

/-! ## Sources of directives -/

/-- What Kotlin sources are surveyed with. -/
def kotlinSurvey : Survey Unit ImportFact :=
  ⟨(), [], ImportLanguage.kotlin.analyzers⟩

/-- At the node of a directive what it says is found, and nothing is left to complain about. -/
theorem findingsAt_directive (directive : Directive) {unit : SourceUnit} {node : Node}
    (hkind : node.kind = directive.kind.nodeKind) (htext : unit.text node = directive.text) :
    (kotlinSurvey.findingsAt unit () node).contents = [directive.fact] ∧
      (kotlinSurvey.findingsAt unit () node).problems = [] := by
  have hname := directive.directiveName?_text
  have hall : kotlinSurvey.findingsAt unit () node =
      (packageAnalyzer .packageDirective).findings unit () node ++
        ((importAnalyzer .importDirective).findings unit () node ++ .empty) := rfl
  rw [← htext] at hname
  cases directive with
  | package gap path =>
    rw [Directive.keyword, Directive.path] at hname
    have hother : (importAnalyzer .importDirective).findings unit () node = .empty :=
      Analyzer.findings_of_not_taken (by rw [hkind]; rfl) unit ()
    have hvalue : (packageAnalyzer .packageDirective).analyze unit () node =
        .ok (some (.package (String.ofList path.name))) := by
      simp only [packageAnalyzer]
      rw [hname]
    rw [hall, hother, Findings.append_empty, Findings.append_empty]
    exact Analyzer.findings_of_ok (by rw [hkind]; exact List.mem_singleton_self _) hvalue
  | imports gap path ending =>
    rw [Directive.keyword, Directive.path] at hname
    have hother : (packageAnalyzer .packageDirective).findings unit () node = .empty :=
      Analyzer.findings_of_not_taken (by rw [hkind]; rfl) unit ()
    have hvalue : (importAnalyzer .importDirective).analyze unit () node =
        .ok (some (.imports [String.ofList path.name])) := by
      simp only [importAnalyzer]
      rw [hname]
    rw [hall, hother, Findings.append_empty, Findings.empty_append]
    exact Analyzer.findings_of_ok (by rw [hkind]; exact List.mem_singleton_self _) hvalue

/-- A Kotlin source of directives is accepted, whatever its layout, and nothing is left to complain
about in it. Its package and imports are found in their order, each with its name: that of the path,
without backticks, star and alias. -/
theorem importsOf_written {path : Path} {directives : List Directive} {source : List Char}
    {languages : List ImportLanguage} (hpath : path.extension? = some "kt".toList)
    (hkotlin : .kotlin ∈ languages)
    (hwritten : Written true Directive.text true directives source) :
    ∃ unit, SourceUnit.ofText path source = .ok unit ∧
      (importsOf languages unit).problems = [] ∧
      (importsOf languages unit).contents = directives.map Directive.fact := by
  have hlanguage : Language.ofPath? path = some Script.Dialect.kotlin.language := by
    rw [Language.ofPath?, hpath]
    rfl
  obtain ⟨unit, hunit, hkind, hroot, hnodes⟩ := hwritten.exists_unit (fun _ => rfl)
    (fun directive _ => ⟨_, directive.isStatement⟩) hlanguage
  have hcollect : importsOf languages unit = kotlinSurvey.collect unit := by
    rw [importsOf, hkind]
    simp only [Script.Dialect.language, ImportLanguage.ofLanguage?, List.contains_iff_mem, hkotlin,
      if_true]
    rfl
  refine ⟨unit, hunit, ?_⟩
  rw [hcollect, List.map_eq_flatMap]
  refine (Survey.collect_of_statements ?_ (hnodes.imp fun directive node hnode => ?_)).symm
  · refine Survey.findingsAt_of_not_taken ?_ unit ()
    rw [hroot]
    decide
  · exact ⟨hnode.2.1, findingsAt_directive directive hnode.1 hnode.2.2⟩

/-- A package and two imports, with comments behind and between them. -/
theorem importsOf_written_example :
    ∃ unit, SourceUnit.ofText ⟨"app/Main.kt"⟩
      "package com\n/*/**/*/import okio.`Buffer` as Some; import okio.*// all\n".toList = .ok unit ∧
        (importsOf [.kotlin] unit).problems = [] ∧
        (importsOf [.kotlin] unit).contents =
          [.package "com", .imports ["okio.Buffer"], .imports ["okio"]] := by
  let gap : Gap := ⟨⟨[' '], by decide⟩, by decide⟩
  let okio : Identifier := ⟨"okio".toList, false, by decide, by decide⟩
  let buffer : Identifier := ⟨"Buffer".toList, true, by decide, by decide⟩
  let other : Identifier := ⟨"Some".toList, false, by decide, by decide⟩
  let package : Directive :=
    .package gap ⟨[⟨"com".toList, false, by decide, by decide⟩], by decide, by decide, by decide⟩
  let renamed : Directive :=
    .imports gap ⟨[okio, buffer], by decide, by decide, by decide⟩ (.renamed gap gap other)
  let star : Directive := .imports gap ⟨[okio], by decide, by decide, by decide⟩ .star
  have hsource : "package com\n/*/**/*/import okio.`Buffer` as Some; import okio.*// all\n".toList =
      [] ++ (package.text ++ ("\n/*/**/*/".toList ++ (renamed.text ++ ("; ".toList ++
        (star.text ++ "// all\n".toList))))) := by decide +kernel
  have hcomment : Layout true true "// all\n".toList :=
    .lineComment (by decide : '\n' ∉ " all".toList) .nil
  rw [hsource]
  exact importsOf_written (by decide) (by decide)
    (.statement .nil (Or.inl rfl)
      (.statement (.newline (.blockComment (.nested rfl .nil .nil) .nil)) (Or.inr rfl)
        (.statement (.semicolon (.blank (c := ' ') rfl .nil)) (Or.inr rfl)
          (.ending (.layout hcomment)))))

end CorpusFacts.Imports
