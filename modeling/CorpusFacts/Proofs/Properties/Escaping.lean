import CorpusFacts.Proofs.Properties.LogicalLines
import CorpusFacts.Proofs.Text.Splitting
import CorpusFacts.Properties.Entry

/-!
# Writing keys and values

A key or value is written character by character, with a backslash before everything that has a
meaning of its own. An entry may be broken between any two of the pieces that it is written with.
Whatever the breaks, its text gives back key and value.
-/

namespace CorpusFacts.Properties

/-! ## Scanning keys and values

The scanners for separators and escapes read a text from left to right and never look back. So what
each of them makes of a text is known from the single characters and escapes that it is made of.
-/

/-- The characters that end a key unless a backslash protects them. -/
def endsKey (c : Char) : Bool :=
  isSign c || isSpacing c

/-- A plain character belongs to the key. -/
theorem splitKey_plain {c : Char} (hslash : c ≠ '\\') (hends : endsKey c = false)
    (rest : List Char) :
    splitKey (c :: rest) = (c :: (splitKey rest).1, (splitKey rest).2) := by
  rw [endsKey] at hends
  cases rest with
  | nil => simp [splitKey, hends]
  | cons d rest => simp [splitKey, hends, hslash]

/-- A character behind a backslash belongs to the key. -/
theorem splitKey_escaped (c : Char) (rest : List Char) :
    splitKey ('\\' :: c :: rest) = ('\\' :: c :: (splitKey rest).1, (splitKey rest).2) := by
  simp [splitKey]

/-- A separator ends the key. -/
theorem splitKey_end {c : Char} (hends : endsKey c = true) (rest : List Char) :
    splitKey (c :: rest) = ([], c :: rest) := by
  have hslash : c ≠ '\\' := by
    rintro rfl
    exact absurd hends (by decide)
  rw [endsKey] at hends
  cases rest with
  | nil => simp [splitKey, hends]
  | cons d rest => simp [splitKey, hends, hslash]

/-- A separator ends a key that is spelled by codes which the scanner goes past. -/
theorem splitKey_flatMap {code : Char → List Char} {key : List Char}
    (hcode : ∀ c ∈ key, ∀ rest,
      splitKey (code c ++ rest) = (code c ++ (splitKey rest).1, (splitKey rest).2))
    {sign : Char} (hends : endsKey sign = true) (rest : List Char) :
    splitKey (key.flatMap code ++ sign :: rest) = (key.flatMap code, sign :: rest) := by
  induction key with
  | nil => exact splitKey_end hends rest
  | cons c key ih =>
    have hkey := ih fun d hd => hcode d (List.mem_cons_of_mem _ hd)
    rw [List.flatMap_cons, List.append_assoc, hcode c (List.mem_cons_self ..), hkey]

/-- Blanks before anything else are dropped. -/
theorem dropWhile_append_of_head {p : Char → Bool} {blanks rest : List Char}
    (hblanks : ∀ c ∈ blanks, p c = true) (hrest : ∀ c ∈ rest.head?, p c = false) :
    (blanks ++ rest).dropWhile p = rest := by
  rw [List.dropWhile_append_of_pos hblanks]
  cases rest with
  | nil => rfl
  | cons c rest => rw [List.dropWhile_cons_of_neg (by simpa using hrest c rfl)]

/-- One sign and the blanks around it stand between key and value. -/
theorem dropSeparator_sign {before after value : List Char} {sign : Char}
    (hbefore : ∀ c ∈ before, isSpacing c = true) (hsign : isSign sign = true)
    (hafter : ∀ c ∈ after, isSpacing c = true)
    (hvalue : ∀ c ∈ value.head?, isSpacing c = false) :
    dropSeparator (before ++ sign :: (after ++ value)) = value := by
  have hplain : isSpacing sign = false := by
    rcases (by simpa [isSign] using hsign : sign = '=' ∨ sign = ':') with rfl | rfl <;> rfl
  have hdrop : (before ++ sign :: (after ++ value)).dropWhile isSpacing =
      sign :: (after ++ value) := dropWhile_append_of_head hbefore (by simpa using hplain)
  rw [dropSeparator, hdrop]
  simp only [hsign, if_true]
  exact dropWhile_append_of_head hafter hvalue

/-- A plain character stands for itself. -/
theorem unescape_plain {c : Char} (hslash : c ≠ '\\') (rest : List Char) :
    unescape (c :: rest) = c :: unescape rest := by
  cases rest with
  | nil => simp [unescape, hslash]
  | cons d rest =>
    rw [unescape.eq_def]
    simp [hslash]

/-- A backslash and the character behind it stand for one character. -/
theorem unescape_escaped {c : Char} (hplain : c ≠ 'u') (rest : List Char) :
    unescape ('\\' :: c :: rest) = simpleEscape c :: unescape rest := by
  rw [unescape.eq_def]
  simp [hplain]

/-- Four digits behind `\u` are read on their own. -/
theorem unescape_unicode (h₁ h₂ h₃ h₄ : Char) (rest : List Char) :
    unescape ('\\' :: 'u' :: h₁ :: h₂ :: h₃ :: h₄ :: rest) =
      unicodeEscape [h₁, h₂, h₃, h₄] ++ unescape rest := by
  simp [unescape]

/-- A text spelled by codes is read code by code. -/
theorem unescape_flatMap {code : Char → List Char} (meaning : Char → List Char) {text : List Char}
    (hcode : ∀ c ∈ text, ∀ rest, unescape (code c ++ rest) = meaning c ++ unescape rest) :
    unescape (text.flatMap code) = text.flatMap meaning := by
  induction text with
  | nil => rfl
  | cons c text ih =>
    have htext := ih fun d hd => hcode d (List.mem_cons_of_mem _ hd)
    rw [List.flatMap_cons, hcode c (List.mem_cons_self ..), htext, List.flatMap_cons]

/-! ## Written characters and their breaks -/

/-- A character of a key or value as it is written. -/
def escapeChar (c : Char) : List Char :=
  if c == '\\' then ['\\', '\\']
  else if c == '\t' then ['\\', 't']
  else if c == '\n' then ['\\', 'n']
  else if c == '\r' then ['\\', 'r']
  else if c == '\x0c' then ['\\', 'f']
  else if c == '=' || c == ':' || c == '#' || c == '!' || Text.isBlank c then ['\\', c]
  else [c]

/-- Characters that mean nothing to the scanners. -/
structure IsPlain (c : Char) : Prop where
  /-- It protects nothing. -/
  slash : c ≠ '\\'
  /-- It is no blank. -/
  blank : Text.isBlank c = false
  /-- It separates nothing. -/
  sign : isSign c = false
  /-- It starts no comment. -/
  comment : c ≠ '#' ∧ c ≠ '!'

/-- The blanks around a separator are blanks within a line. -/
theorem isBlank_of_isSpacing {c : Char} (h : isSpacing c = true) :
    Text.isBlank c = true ∧ c ≠ '\n' ∧ c ≠ '\r' := by
  rcases (by simpa [isSpacing, or_assoc] using h : c = ' ' ∨ c = '\t' ∨ c = '\x0c') with
    rfl | rfl | rfl <;> decide

/-- A character that means nothing to the scanners ends no key. -/
theorem IsPlain.endsKey_eq {c : Char} (h : IsPlain c) : endsKey c = false := by
  have hspacing : isSpacing c = false := by
    by_contra hc
    have := (isBlank_of_isSpacing (by simpa using hc)).1
    rw [h.blank] at this
    cases this
  rw [endsKey, h.sign, hspacing]
  rfl

/-- A character is written as it is, or as a backslash and a character that stands for it. -/
theorem escapeChar_cases (c : Char) :
    escapeChar c = [c] ∧ IsPlain c ∨
      ∃ d, escapeChar c = ['\\', d] ∧ simpleEscape d = c ∧ d ≠ 'u' ∧ d ≠ '\n' ∧ d ≠ '\r' := by
  unfold escapeChar
  split_ifs with hslash htab hfeed hreturn hform hother
  · exact .inr ⟨'\\', rfl, (eq_of_beq hslash).symm, by decide⟩
  · exact .inr ⟨'t', rfl, (eq_of_beq htab).symm, by decide⟩
  · exact .inr ⟨'n', rfl, (eq_of_beq hfeed).symm, by decide⟩
  · exact .inr ⟨'r', rfl, (eq_of_beq hreturn).symm, by decide⟩
  · exact .inr ⟨'f', rfl, (eq_of_beq hform).symm, by decide⟩
  · have hletter {d : Char} (hd : (d == '=' || d == ':' || d == '#' || d == '!' ||
        Text.isBlank d) = false) : c ≠ d := by
      rintro rfl
      rw [hother] at hd
      cases hd
    refine .inr ⟨c, rfl, ?_, hletter (by decide), by simpa using hfeed, by simpa using hreturn⟩
    simp [simpleEscape, hletter (d := 't') (by decide), hletter (d := 'n') (by decide),
      hletter (d := 'r') (by decide), hletter (d := 'f') (by decide)]
  · simp only [Bool.or_eq_true, not_or, beq_iff_eq, Bool.not_eq_true] at hother
    exact .inl ⟨rfl, by simpa using hslash, hother.2, by simp [isSign, hother], by simp [hother]⟩

/-- No key ends within an escaped character. -/
theorem splitKey_escapeChar (c : Char) (rest : List Char) :
    splitKey (escapeChar c ++ rest) = (escapeChar c ++ (splitKey rest).1, (splitKey rest).2) := by
  rcases escapeChar_cases c with ⟨hc, hplain⟩ | ⟨d, hd, -⟩
  · rw [hc]
    exact splitKey_plain hplain.slash hplain.endsKey_eq rest
  · rw [hd]
    exact splitKey_escaped d rest

/-- An escaped character is read as itself. -/
theorem unescape_escapeChar (c : Char) (rest : List Char) :
    unescape (escapeChar c ++ rest) = [c] ++ unescape rest := by
  rcases escapeChar_cases c with ⟨hc, hplain⟩ | ⟨d, hd, hmeans, hletter, -⟩
  · rw [hc]
    exact unescape_plain hplain.slash rest
  · rw [hd]
    refine (unescape_escaped hletter rest).trans ?_
    rw [hmeans]
    rfl

/-- An escaped text is read as itself. -/
theorem unescape_escape (text : List Char) : unescape (text.flatMap escapeChar) = text := by
  rw [unescape_flatMap (fun c => [c]) fun c _ rest => unescape_escapeChar c rest]
  exact List.flatMap_singleton' text

/-- What entries are written with: blanks around the sign, plain characters such as the sign, and
characters behind backslashes. -/
inductive IsPiece : List Char → Prop
  /-- A blank at the sign. -/
  | space {c : Char} (hspacing : isSpacing c = true) : IsPiece [c]
  /-- A character that is no blank. -/
  | plain {c : Char} (hslash : c ≠ '\\') (hblank : Text.isBlank c = false) : IsPiece [c]
  /-- A character behind a backslash. -/
  | escaped {c : Char} (hfeed : c ≠ '\n') (hreturn : c ≠ '\r') : IsPiece ['\\', c]

/-- Escaped characters are pieces. -/
theorem isPiece_escapeChar (c : Char) : IsPiece (escapeChar c) := by
  rcases escapeChar_cases c with ⟨hc, hplain⟩ | ⟨d, hd, _, _, hfeed, hreturn⟩
  · rw [hc]
    exact .plain hplain.slash hplain.blank
  · rw [hd]
    exact .escaped hfeed hreturn

namespace IsPiece

variable {piece : List Char}

/-- A piece is not empty. -/
theorem ne_nil (h : IsPiece piece) : piece ≠ [] := by
  cases h <;> simp

/-- A piece has no part in a line end. -/
theorem notMem (h : IsPiece piece) : '\n' ∉ piece ∧ '\r' ∉ piece := by
  cases h with
  | space hspacing => simpa [eq_comm] using (isBlank_of_isSpacing hspacing).2
  | @plain c _ hblank =>
    constructor
    all_goals
      intro hmem
      obtain rfl := List.mem_singleton.mp hmem
      exact absurd hblank (by decide)
  | escaped hfeed hreturn => simp [hfeed.symm, hreturn.symm]

/-- A piece leaves no backslash without the character it protects. -/
theorem continues_append (h : IsPiece piece) {line : List Char} (hline : continues line = false) :
    continues (line ++ piece) = false := by
  cases h with
  | @space c hspacing =>
    have hslash : c ≠ '\\' := by
      rintro rfl
      exact absurd hspacing (by decide)
    simp [continues_concat, hslash]
  | plain hslash _ => simp [continues_concat, hslash]
  | @escaped c _ _ =>
    have hpair : line ++ ['\\', c] = line ++ ['\\'] ++ [c] := by simp
    rw [hpair, continues_concat, continues_concat, hline]
    simp

end IsPiece

/-- Pieces make up a line that does not go on. -/
theorem continues_flatten {row : List (List Char)} (hrow : ∀ piece ∈ row, IsPiece piece) :
    continues row.flatten = false := by
  induction row using List.reverseRecOn with
  | nil => rfl
  | append_singleton row piece ih =>
    rw [List.flatten_append, List.flatten_singleton]
    exact (hrow piece (by simp)).continues_append
      (ih fun other hother => hrow other (List.mem_append_left _ hother))

/-- Pieces have no part in a line end. -/
theorem notMem_flatten {row : List (List Char)} (hrow : ∀ piece ∈ row, IsPiece piece) :
    '\n' ∉ row.flatten ∧ '\r' ∉ row.flatten := by
  simp only [List.mem_flatten, not_exists, not_and]
  exact ⟨fun piece hpiece => (hrow piece hpiece).notMem.1,
    fun piece hpiece => (hrow piece hpiece).notMem.2⟩

/-- Pieces make up a row. -/
theorem isRow_flatten {row : List (List Char)} (hne : row ≠ [])
    (hrow : ∀ piece ∈ row, IsPiece piece) : IsRow row.flatten where
  ne_nil := by
    obtain ⟨piece, rest, rfl⟩ := List.exists_cons_of_ne_nil hne
    simp [(hrow piece (List.mem_cons_self ..)).ne_nil]
  oneLine := (notMem_flatten hrow).1
  ends := fun hlast => (notMem_flatten hrow).2 (List.mem_of_getLast? hlast)

/-- Pieces and a backslash make up a row that goes on. -/
theorem isRow_flatten_slash {row : List (List Char)} (hrow : ∀ piece ∈ row, IsPiece piece) :
    IsRow (row.flatten ++ ['\\']) where
  ne_nil := by simp
  oneLine := by simp [(notMem_flatten hrow).1]
  ends := by simp

/-- Blanks at the start of a line. -/
structure Margin where
  /-- The blanks. -/
  blanks : List Char
  /-- They are blanks. -/
  areBlank : ∀ c ∈ blanks, Text.isBlank c = true
  /-- They are on one line. -/
  oneLine : '\n' ∉ blanks

/-- A break in the middle of an entry: a backslash, a line end, and the blanks of the next line. -/
structure Break where
  /-- The line end. -/
  ending : LineEnd
  /-- The blanks of the next line. -/
  margin : Margin

/-- A break as it is written. -/
def Break.text (turn : Break) : List Char :=
  '\\' :: (turn.ending.text ++ turn.margin.blanks)

/-- The texts that some pieces make up, broken between any two of them or not. -/
inductive Spread : List (List Char) → List Char → Prop
  /-- The last pieces stand on one line. -/
  | row {pieces : List (List Char)} (hne : pieces ≠ []) : Spread pieces pieces.flatten
  /-- Some pieces stand on one line, and the others behind a break. -/
  | broken {row pieces : List (List Char)} {text : List Char} (hne : row ≠ []) (turn : Break)
      (hrest : Spread pieces text) : Spread (row ++ pieces) (row.flatten ++ (turn.text ++ text))

namespace Spread

variable {pieces : List (List Char)} {text : List Char}

/-- The first piece comes first. -/
theorem head?_eq (h : Spread pieces text) (hpieces : ∀ piece ∈ pieces, IsPiece piece) :
    text.head? = pieces.flatten.head? := by
  cases h with
  | row _ => rfl
  | @broken row pieces _ hne turn _ =>
    have hrow : row.flatten ≠ [] :=
      (isRow_flatten hne fun piece h => hpieces piece (List.mem_append_left _ h)).ne_nil
    rw [List.flatten_append, List.head?_append_of_ne_nil _ hrow, List.head?_append_of_ne_nil _ hrow]

/-- Pieces make up a logical line, broken or not. -/
theorem isLogical (h : Spread pieces text) (hpieces : ∀ piece ∈ pieces, IsPiece piece) :
    IsLogical text := by
  induction h with
  | row hne => exact .last (isRow_flatten hne hpieces) (continues_flatten hpieces)
  | @broken row pieces text hne turn _ ih =>
    have hrow : ∀ piece ∈ row, IsPiece piece := fun piece h =>
      hpieces piece (List.mem_append_left _ h)
    have hrest := (ih fun piece h => hpieces piece (List.mem_append_right _ h)).indented
      turn.margin.areBlank turn.margin.oneLine
    have hgoes : continues (row.flatten ++ ['\\']) = true := by
      rw [continues_concat, continues_flatten hrow]
      rfl
    simpa [Break.text] using IsLogical.more turn.ending (isRow_flatten_slash hrow) hgoes hrest

end Spread

/-- Pieces that are left when some blanks at the sign are dropped. -/
inductive Thins : List (List Char) → List (List Char) → Prop
  /-- Nothing is left of nothing. -/
  | nil : Thins [] []
  /-- A piece is kept. -/
  | keep (piece : List Char) {pieces kept : List (List Char)} (h : Thins pieces kept) :
      Thins (piece :: pieces) (piece :: kept)
  /-- A blank at the sign is dropped. -/
  | drop {c : Char} {pieces kept : List (List Char)} (hspacing : isSpacing c = true)
      (h : Thins pieces kept) : Thins ([c] :: pieces) kept

namespace Thins

variable {first second pieces kept : List (List Char)}

/-- All pieces may be left. -/
theorem refl (pieces : List (List Char)) : Thins pieces pieces := by
  induction pieces with
  | nil => exact .nil
  | cons piece pieces ih => exact .keep piece ih

/-- Pieces are left over of each of two parts. -/
theorem append {left right : List (List Char)} (hfirst : Thins first left)
    (hsecond : Thins second right) : Thins (first ++ second) (left ++ right) := by
  induction hfirst with
  | nil => exact hsecond
  | keep piece _ ih => exact .keep piece ih
  | drop hspacing _ ih => exact .drop hspacing ih

/-- What is left of two parts is left of the one and of the other. -/
theorem of_append (h : Thins (first ++ second) kept) :
    ∃ left right, kept = left ++ right ∧ Thins first left ∧ Thins second right := by
  induction first generalizing kept with
  | nil => exact ⟨[], kept, rfl, .nil, h⟩
  | cons piece first ih =>
    cases h with
    | keep _ h =>
      obtain ⟨left, right, rfl, hleft, hright⟩ := ih h
      exact ⟨piece :: left, right, rfl, .keep piece hleft, hright⟩
    | drop hspacing h =>
      obtain ⟨left, right, rfl, hleft, hright⟩ := ih h
      exact ⟨left, right, rfl, .drop hspacing hleft, hright⟩

/-- What is left was there before. -/
theorem mem (h : Thins pieces kept) {piece : List Char} (hpiece : piece ∈ kept) :
    piece ∈ pieces := by
  induction h with
  | nil => exact hpiece
  | keep other _ ih =>
    rcases List.mem_cons.mp hpiece with rfl | hpiece
    · exact List.mem_cons_self ..
    · exact List.mem_cons_of_mem _ (ih hpiece)
  | drop _ _ ih => exact List.mem_cons_of_mem _ (ih hpiece)

/-- Where no piece is a blank at the sign, all are left. -/
theorem eq_of_none (h : Thins pieces kept)
    (hnone : ∀ c, isSpacing c = true → [c] ∉ pieces) : kept = pieces := by
  induction h with
  | nil => rfl
  | keep piece _ ih => rw [ih fun c hc hmem => hnone c hc (List.mem_cons_of_mem _ hmem)]
  | drop hspacing _ _ => exact absurd (List.mem_cons_self ..) (hnone _ hspacing)

end Thins

end CorpusFacts.Properties
