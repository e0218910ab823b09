import CorpusFacts.Proofs.Properties.WrittenFiles

/-!
# Entries with Unicode escapes

Properties are often stored as ASCII: whatever lies outside the printable characters is written by
the numbers of its code units. One code unit is enough for most characters. Those beyond the first
plane need two, a pair of surrogates; every escape is read on its own, and as neither number of a
pair is that of a character, their escapes stay as they are written.
-/

namespace CorpusFacts.Properties

/-- A digit in base sixteen, upper case. -/
def hexDigit (n : Nat) : Char :=
  if n < 10 then Char.ofNat (48 + n) else Char.ofNat (55 + n)

/-- The four digits of a code unit. -/
def hexDigits (unit : Nat) : List Char :=
  [hexDigit (unit / 4096 % 16), hexDigit (unit / 256 % 16), hexDigit (unit / 16 % 16),
    hexDigit (unit % 16)]

/-- The code units of a character in UTF-16. -/
def codeUnits (c : Char) : List Nat :=
  if c.toNat < 0x10000 then [c.toNat]
  else [0xd800 + (c.toNat - 0x10000) / 0x400, 0xdc00 + (c.toNat - 0x10000) % 0x400]

/-- A character by the numbers of its code units. -/
def unicodeEscapes (c : Char) : List Char :=
  (codeUnits c).flatMap fun unit => '\\' :: 'u' :: hexDigits unit

/-- A character as it is stored inside a value. -/
def storeChar (c : Char) : List Char :=
  if c == '\\' then ['\\', '\\']
  else if c == '\t' then ['\\', 't']
  else if c == '\n' then ['\\', 'n']
  else if c == '\r' then ['\\', 'r']
  else if c == '\x0c' then ['\\', 'f']
  else if c == '=' || c == ':' || c == '#' || c == '!' then ['\\', c]
  else if c < ' ' || '~' < c then unicodeEscapes c
  else [c]

/-- A character as it is stored in a key or at the start of a value, where no space may stand. -/
def storeFirst (c : Char) : List Char :=
  if c == ' ' then ['\\', ' '] else storeChar c

/-- A key as it is stored. -/
def storedKey (key : List Char) : List Char :=
  key.flatMap storeFirst

/-- A value as it is stored. -/
def storedValue : List Char → List Char
  | [] => []
  | c :: rest => storeFirst c ++ rest.flatMap storeChar

/-- An entry as it is stored. -/
def storedLine (key value : List Char) : List Char :=
  storedKey key ++ '=' :: storedValue value

/-- What is read where a character was stored. -/
def readBack (c : Char) : List Char :=
  if c.toNat < 0x10000 then [c] else unicodeEscapes c

/-- Digits mean nothing to the scanners. -/
theorem isPlain_hexDigit {n : Nat} (h : n < 16) : IsPlain (hexDigit n) := by
  have hall : ∀ n < 16, hexDigit n ≠ '\\' ∧ Text.isBlank (hexDigit n) = false ∧
      isSign (hexDigit n) = false ∧ hexDigit n ≠ '#' ∧ hexDigit n ≠ '!' := by decide
  obtain ⟨hslash, hblank, hsign, hcomment⟩ := hall n h
  exact ⟨hslash, hblank, hsign, hcomment⟩

/-- Digits are read as the numbers that they stand for. -/
theorem digitValue?_hexDigit {n : Nat} (h : n < 16) :
    Text.digitValue? 16 (hexDigit n) = some n := by
  have hall : ∀ n < 16, Text.digitValue? 16 (hexDigit n) = some n := by decide
  exact hall n h

/-- Four digits are read as the number of the code unit. -/
theorem number?_hexDigits {unit : Nat} (h : unit < 0x10000) :
    Text.number? 16 (hexDigits unit) = some unit := by
  simp only [Text.number?, hexDigits, List.isEmpty_cons, List.foldlM_cons, List.foldlM_nil,
    digitValue?_hexDigit (Nat.mod_lt _ (by decide : 0 < 16)), Option.map_some]
  simp
  omega

/-- The escape of a code unit is read as its character, where it is that of one. -/
theorem unicodeEscape_hexDigits {unit : Nat} (h : unit < 0x10000) :
    unicodeEscape (hexDigits unit) =
      if unit.isValidChar then [Char.ofNat unit] else '\\' :: 'u' :: hexDigits unit := by
  have hplus : (hexDigits unit).head? ≠ some '+' := by
    have hall : ∀ n < 16, hexDigit n ≠ '+' := by decide
    simpa [hexDigits] using hall _ (Nat.mod_lt _ (by decide))
  have hchar : escapedChar? (hexDigits unit) =
      if unit.isValidChar then some (Char.ofNat unit) else none := by
    rw [escapedChar?, if_neg (by simpa using hplus), Text.codePoint?, number?_hexDigits h]
    rfl
  rw [unicodeEscape, hchar]
  split_ifs <;> rfl

/-- The escapes of a character are read as that character, or are left as they are. -/
theorem unescape_unicodeEscapes (c : Char) (rest : List Char) :
    unescape (unicodeEscapes c ++ rest) = readBack c ++ unescape rest := by
  have hcode (unit : Nat) (h : unit < 0x10000) (rest : List Char) :
      unescape ('\\' :: 'u' :: (hexDigits unit ++ rest)) =
        (if unit.isValidChar then [Char.ofNat unit] else '\\' :: 'u' :: hexDigits unit) ++
          unescape rest := by
    rw [← unicodeEscape_hexDigits h]
    exact unescape_unicode ..
  have hbound : c.toNat < 0x110000 := by
    have := c.valid
    change Nat.isValidChar c.toNat at this
    simp only [Nat.isValidChar] at this
    omega
  rw [readBack]
  split_ifs with hplane
  · have hvalid : c.toNat.isValidChar := c.valid
    have := hcode c.toNat hplane rest
    rw [if_pos hvalid, Char.ofNat_toNat] at this
    simpa [unicodeEscapes, codeUnits, hplane] using this
  · have hhigh : ¬ (0xd800 + (c.toNat - 0x10000) / 0x400).isValidChar := by
      simp only [Nat.isValidChar]
      omega
    have hlow : ¬ (0xdc00 + (c.toNat - 0x10000) % 0x400).isValidChar := by
      simp only [Nat.isValidChar]
      omega
    have hfirst := hcode _ (by omega : 0xd800 + (c.toNat - 0x10000) / 0x400 < 0x10000)
      ('\\' :: 'u' :: (hexDigits (0xdc00 + (c.toNat - 0x10000) % 0x400) ++ rest))
    have hsecond := hcode _ (by omega : 0xdc00 + (c.toNat - 0x10000) % 0x400 < 0x10000) rest
    rw [if_neg hhigh] at hfirst
    rw [if_neg hlow] at hsecond
    simpa [unicodeEscapes, codeUnits, hplane, hsecond] using hfirst

/-- A space and the other printable characters of ASCII are no other blanks. -/
theorem isBlank_eq_false_of_printable {c : Char} (hlow : ' ' < c) (hhigh : c ≤ '~') :
    Text.isBlank c = false := by
  have hall : ∀ n < 127, 32 < n → Text.isBlank (Char.ofNat n) = false := by decide
  have hlow' : 32 < c.toNat := hlow
  have hhigh' : c.toNat ≤ 126 := hhigh
  have := hall c.toNat (by omega) hlow'
  rwa [Char.ofNat_toNat] at this

/-- Texts that are made up of pieces. -/
def IsMade (text : List Char) : Prop :=
  ∃ row : List (List Char), (∀ piece ∈ row, IsPiece piece) ∧ text = row.flatten

/-- A piece is made up of itself. -/
theorem IsPiece.isMade {piece : List Char} (h : IsPiece piece) : IsMade piece :=
  ⟨[piece], by simpa using h, by simp⟩

namespace IsMade

/-- Nothing is made up of no piece. -/
theorem nil : IsMade [] :=
  ⟨[], by simp, rfl⟩

/-- Two texts are made up of the pieces of both. -/
theorem append {first second : List Char} (hfirst : IsMade first) (hsecond : IsMade second) :
    IsMade (first ++ second) := by
  obtain ⟨row, hrow, rfl⟩ := hfirst
  obtain ⟨next, hnext, rfl⟩ := hsecond
  refine ⟨row ++ next, fun piece hpiece => ?_, List.flatten_append.symm⟩
  rcases List.mem_append.mp hpiece with hpiece | hpiece
  · exact hrow piece hpiece
  · exact hnext piece hpiece

/-- Many texts are made up of the pieces of all. -/
theorem flatMap {α : Type} {code : α → List Char} {items : List α}
    (h : ∀ item, IsMade (code item)) : IsMade (items.flatMap code) := by
  induction items with
  | nil => exact nil
  | cons item items ih => exact (h item).append ih

end IsMade

/-- The ways a character is stored where no space may stand: as it is, behind a backslash, or by the
numbers of its code units. -/
inductive IsCode (c : Char) : List Char → Prop
  /-- A character that means nothing to the scanners. -/
  | plain (hplane : c.toNat < 0x10000) (hplain : IsPlain c) : IsCode c [c]
  /-- A character that stands for it, behind a backslash. -/
  | escaped {d : Char} (hplane : c.toNat < 0x10000) (hmeans : simpleEscape d = c)
      (hletter : d ≠ 'u') (hbreak : d ≠ '\n' ∧ d ≠ '\r') : IsCode c ['\\', d]
  /-- The escapes of its code units. -/
  | units : IsCode c (unicodeEscapes c)

/-- Any other character is stored alike at any place. -/
theorem storeChar_of_ne {c : Char} (h : c ≠ ' ') : storeChar c = storeFirst c := by
  rw [storeFirst, if_neg (by simpa using h)]

/-- Every character has a code. -/
theorem isCode_storeFirst (c : Char) : IsCode c (storeFirst c) := by
  have hascii {d : Char} (h : c = d) (hd : d.toNat < 0x10000) : c.toNat < 0x10000 := h ▸ hd
  unfold storeFirst storeChar
  split_ifs with hspace hslash htab hfeed hreturn hform hmark hother
  · exact .escaped (hascii (eq_of_beq hspace) (by decide)) (eq_of_beq hspace).symm (by decide)
      (by decide)
  · exact .escaped (hascii (eq_of_beq hslash) (by decide)) (eq_of_beq hslash).symm (by decide)
      (by decide)
  · exact .escaped (hascii (eq_of_beq htab) (by decide)) (eq_of_beq htab).symm (by decide)
      (by decide)
  · exact .escaped (hascii (eq_of_beq hfeed) (by decide)) (eq_of_beq hfeed).symm (by decide)
      (by decide)
  · exact .escaped (hascii (eq_of_beq hreturn) (by decide)) (eq_of_beq hreturn).symm (by decide)
      (by decide)
  · exact .escaped (hascii (eq_of_beq hform) (by decide)) (eq_of_beq hform).symm (by decide)
      (by decide)
  · rcases (by simpa [or_assoc] using hmark : c = '=' ∨ c = ':' ∨ c = '#' ∨ c = '!') with
      rfl | rfl | rfl | rfl <;> exact .escaped (by decide) (by decide) (by decide) (by decide)
  · exact .units
  · simp only [Bool.or_eq_true, decide_eq_true_eq, not_or, Char.not_lt] at hother
    simp only [Bool.or_eq_true, beq_iff_eq, not_or] at hmark hslash hspace
    have hlow : ' ' < c := Std.lt_of_le_of_ne hother.1 (Ne.symm hspace)
    have hplane : c.toNat ≤ 126 := hother.2
    exact .plain (by omega) ⟨hslash, isBlank_eq_false_of_printable hlow hother.2,
      by simp [isSign, hmark], by simp [hmark]⟩

namespace IsCode

variable {c : Char} {code : List Char}

/-- No key ends within a code. -/
theorem splitKey_append (h : IsCode c code) (rest : List Char) :
    splitKey (code ++ rest) = (code ++ (splitKey rest).1, (splitKey rest).2) := by
  have hdigits (unit : Nat) (rest : List Char) :
      splitKey (hexDigits unit ++ rest) =
        (hexDigits unit ++ (splitKey rest).1, (splitKey rest).2) := by
    have hdigit (n : Nat) := isPlain_hexDigit (Nat.mod_lt n (by decide : 0 < 16))
    simp [hexDigits, splitKey_plain (hdigit _).slash (hdigit _).endsKey_eq]
  cases h with
  | plain _ hplain => exact splitKey_plain hplain.slash hplain.endsKey_eq rest
  | escaped => exact splitKey_escaped _ rest
  | units =>
    rw [unicodeEscapes, codeUnits]
    split_ifs <;> simp [splitKey_escaped, hdigits]

/-- A code is read as its character, or left as it is. -/
theorem unescape_append (h : IsCode c code) (rest : List Char) :
    unescape (code ++ rest) = readBack c ++ unescape rest := by
  cases h with
  | plain hplane hplain =>
    rw [readBack, if_pos hplane]
    exact unescape_plain hplain.slash rest
  | escaped hplane hmeans hletter _ =>
    rw [readBack, if_pos hplane, ← hmeans]
    exact unescape_escaped hletter rest
  | units => exact unescape_unicodeEscapes c rest

/-- A code is made up of pieces. -/
theorem isMade (h : IsCode c code) : IsMade code := by
  have hdigit (n : Nat) : IsMade [hexDigit (n % 16)] :=
    have hplain := isPlain_hexDigit (Nat.mod_lt n (by decide : 0 < 16))
    (IsPiece.plain hplain.slash hplain.blank).isMade
  have hletter : IsMade ['\\', 'u'] := (IsPiece.escaped (by decide) (by decide)).isMade
  cases h with
  | plain _ hplain => exact (IsPiece.plain hplain.slash hplain.blank).isMade
  | escaped _ _ _ hbreak => exact (IsPiece.escaped hbreak.1 hbreak.2).isMade
  | units =>
    refine IsMade.flatMap fun unit => hletter.append ?_
    exact (hdigit _).append ((hdigit _).append ((hdigit _).append (hdigit _)))

/-- A code is not empty. -/
theorem ne_nil (h : IsCode c code) : code ≠ [] := by
  cases h with
  | plain | escaped => simp
  | units =>
    rw [unicodeEscapes, codeUnits]
    split_ifs <;> simp

/-- A code starts with no blank. -/
theorem head?_cases (h : IsCode c code) {d : Char} (hd : d ∈ code.head?) :
    d = '\\' ∨ IsPlain d := by
  cases h with
  | plain _ hplain =>
    obtain rfl : c = d := by simpa using hd
    exact .inr hplain
  | escaped => exact .inl (by simpa [eq_comm] using hd)
  | units =>
    rw [unicodeEscapes, codeUnits] at hd
    split_ifs at hd <;> exact .inl (by simpa [eq_comm] using hd)

end IsCode

/-- A character inside a value is read as itself, or left as it is. -/
theorem unescape_storeChar (c : Char) (rest : List Char) :
    unescape (storeChar c ++ rest) = readBack c ++ unescape rest := by
  by_cases hspace : c = ' '
  · subst hspace
    exact unescape_plain (by decide) rest
  · rw [storeChar_of_ne hspace]
    exact (isCode_storeFirst c).unescape_append rest

/-- A character inside a value is made up of pieces. -/
theorem isMade_storeChar (c : Char) : IsMade (storeChar c) := by
  by_cases hspace : c = ' '
  · subst hspace
    exact (IsPiece.space (c := ' ') (by decide)).isMade
  · rw [storeChar_of_ne hspace]
    exact (isCode_storeFirst c).isMade

/-- A stored key is read character by character. -/
theorem unescape_storedKey (key : List Char) : unescape (storedKey key) = key.flatMap readBack :=
  unescape_flatMap _ fun c _ => (isCode_storeFirst c).unescape_append

/-- A stored value is read character by character. -/
theorem unescape_storedValue (value : List Char) :
    unescape (storedValue value) = value.flatMap readBack := by
  cases value with
  | nil => rfl
  | cons c rest =>
    rw [storedValue, (isCode_storeFirst c).unescape_append, List.flatMap_cons,
      unescape_flatMap _ fun c _ => unescape_storeChar c]

/-- A stored value starts with no blank. -/
theorem head?_storedValue (value : List Char) :
    ∀ c ∈ (storedValue value).head?, isSpacing c = false := by
  intro c hc
  cases value with
  | nil => cases hc
  | cons d rest =>
    have hcode := isCode_storeFirst d
    rw [storedValue, List.head?_append_of_ne_nil _ hcode.ne_nil] at hc
    rcases hcode.head?_cases hc with rfl | hplain
    · rfl
    · have := hplain.endsKey_eq
      simp only [endsKey, Bool.or_eq_false_iff] at this
      exact this.2

/-- A stored line is made up of pieces. -/
theorem isMade_storedLine (key value : List Char) : IsMade (storedLine key value) := by
  have hkey : IsMade (storedKey key) := .flatMap fun c => (isCode_storeFirst c).isMade
  have hsign : IsMade ['='] := (IsPiece.plain (c := '=') (by decide) (by decide)).isMade
  have hvalue : IsMade (storedValue value) := by
    cases value with
    | nil => exact .nil
    | cons c rest => exact (isCode_storeFirst c).isMade.append (.flatMap isMade_storeChar)
  exact hkey.append (hsign.append hvalue)

/-- A stored line is read character by character. -/
theorem splitEntry_storedLine (key value : List Char) :
    splitEntry (storedLine key value) = (key.flatMap readBack, value.flatMap readBack) := by
  obtain ⟨row, hrow, hline⟩ := isMade_storedLine key value
  have hjoin : joinLines false (Text.split '\n' (storedLine key value)) = storedLine key value := by
    have hsplit : Text.split '\n' (storedLine key value) = [storedLine key value] :=
      Text.splitWhere_of_none fun c hc => beq_false_of_ne (ne_of_mem_of_not_mem hc (by
        rw [hline]
        exact (notMem_flatten hrow).1))
    rw [hsplit, joinLines]
    exact dropReturns_of_notMem (by
      rw [hline]
      exact (notMem_flatten hrow).2)
  have hkey : splitKey (storedKey key ++ '=' :: storedValue value) =
      (storedKey key, '=' :: storedValue value) :=
    splitKey_flatMap (fun c _ => (isCode_storeFirst c).splitKey_append) (by decide) _
  have hvalue : dropSeparator ([] ++ '=' :: ([] ++ storedValue value)) = storedValue value :=
    dropSeparator_sign (by simp) (by decide) (by simp) (head?_storedValue value)
  rw [List.nil_append, List.nil_append] at hvalue
  rw [splitEntry, hjoin, storedLine, hkey]
  dsimp only
  rw [hvalue, unescape_storedKey, unescape_storedValue]

/-- A text is read back as it was where every character of it lies in the first plane. -/
theorem flatMap_readBack_eq_iff (text : List Char) :
    text.flatMap readBack = text ↔ ∀ c ∈ text, c.toNat < 0x10000 := by
  have hlength (text : List Char) : text.length ≤ (text.flatMap readBack).length := by
    induction text with
    | nil => simp
    | cons c rest ih =>
      have hone : 1 ≤ (readBack c).length := by
        rw [readBack, unicodeEscapes, codeUnits]
        split_ifs <;> simp
      rw [List.flatMap_cons, List.length_append, List.length_cons]
      omega
  induction text with
  | nil => simp
  | cons c rest ih =>
    rw [List.flatMap_cons, List.forall_mem_cons]
    by_cases hplane : c.toNat < 0x10000
    · rw [readBack, if_pos hplane]
      simpa [hplane] using ih
    · have htwo : 2 ≤ (readBack c).length := by
        rw [readBack, if_neg hplane, unicodeEscapes, codeUnits, if_neg hplane]
        simp
      refine ⟨fun h => ?_, fun h => absurd h.1 hplane⟩
      have hsame := congrArg List.length h
      rw [List.length_append, List.length_cons] at hsame
      have := hlength rest
      omega

/-- A file with one stored entry, with its line end or without. -/
def storedFile (key value : List Char) (ending : Option LineEnd) : List Char :=
  storedLine key value ++ (ending.map LineEnd.text).getD []

/-- The line of a stored entry, whatever its line end, is one entry with the key and the value as
they are read back. These are the ones that were stored where no character lies beyond the first
plane, and not otherwise. -/
theorem readFile_storedFile (key value : List Char) (hkey : key ≠ [])
    (ending : Option LineEnd) :
    readFile (storedFile key value ending) =
        [(.property, 1, key.flatMap readBack, value.flatMap readBack)] ∧
      (readFile (storedFile key value ending) = [(.property, 1, key, value)] ↔
        ∀ c ∈ key ++ value, c.toNat < 0x10000) := by
  obtain ⟨row, hrow, hline⟩ := isMade_storedLine key value
  have hne : row ≠ [] := by
    rintro rfl
    simp [storedLine] at hline
  have hlogical : IsLogical (storedLine key value) := by
    rw [hline]
    exact .last (isRow_flatten hne hrow) (continues_flatten hrow)
  have hstart : ∀ c ∈ (storedLine key value).head?, startsEntry c = true := by
    intro c hc
    obtain ⟨first, rest, rfl⟩ := List.exists_cons_of_ne_nil hkey
    have hcode := isCode_storeFirst first
    rw [storedLine, storedKey, List.flatMap_cons, List.append_assoc,
      List.head?_append_of_ne_nil _ hcode.ne_nil] at hc
    rcases hcode.head?_cases hc with rfl | hplain
    · decide
    · simp [startsEntry, hplain.blank, hplain.comment]
  have hread : readFile (storedFile key value ending) =
      [(.property, 1, key.flatMap readBack, value.flatMap readBack)] := by
    have hslice := sliceBytes_middle [] (storedLine key value) ((ending.map LineEnd.text).getD [])
    rw [Text.byteLength_nil, Nat.zero_add, List.nil_append] at hslice
    rw [readFile, storedFile, children_tree_logical hlogical hstart ending, List.map_singleton,
      readNode, ← splitEntry_storedLine, entryNode, Node.start, Node.stop, hslice]
    rfl
  refine ⟨hread, ?_⟩
  rw [hread, List.forall_mem_append, ← flatMap_readBack_eq_iff, ← flatMap_readBack_eq_iff]
  simp

/-- Spaces, signs and letters beyond ASCII are read back. -/
theorem readFile_storedFile_accents :
    ['é', ' '] ≠ [] ∧ storedFile ['é', ' '] [' ', ':'] (some .feed) = "\\u00E9\\ =\\ \\:\n".toList ∧
      readFile (storedFile ['é', ' '] [' ', ':'] (some .feed)) =
        [(.property, 1, ['é', ' '], [' ', ':'])] :=
  ⟨by simp, by decide,
    (readFile_storedFile ['é', ' '] [' ', ':'] (by simp) (some .feed)).2.mpr (by simp)⟩

/-- A character beyond the first plane is not read back. -/
theorem storedFile_surrogates :
    ¬ ∀ key value, key ≠ [] →
      readFile (storedFile key value none) = [(.property, 1, key, value)] := by
  intro h
  exact absurd (h ['k'] ['😀'] (by simp)) (by decide)

end CorpusFacts.Properties
