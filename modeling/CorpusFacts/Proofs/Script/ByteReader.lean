import CorpusFacts.Proofs.Script.Pieces
import CorpusFacts.Proofs.Script.LiteralEnds

/-!
# Reading a script by the places of its bytes

The lexer of scripts keeps the number of the byte that it has come to, looks at that byte and up to
two behind it, and moves on. Here it is written down in that form: a lookup beyond the end of the
source stops the walk with a failure of its own, a rejected source with a line and a cause, and a
walk that never ends has no result at all. The numbers of braces and comments that are open, and the
depth of calls, are not bounded.

Every walk is compared with the scan over characters that does the same. A walk is at a text if the
bytes from its place on are those of the text. All characters that a scan tells apart are ASCII, so
inside of another character a walk only moves on; and where a backslash takes the first byte of
such a character with it, it moves on to the end of that character.
-/

namespace CorpusFacts.Script

/-- Why a walk over a source stops before its end. -/
inductive Halt where
  /-- Something was looked up at a place beyond the end. -/
  | outOfRange
  /-- A place was subtracted from one before it. -/
  | negative
  /-- Something else than an opening bracket was taken for an open one. -/
  | unbalanced (line : Nat)
  /-- The source is rejected, on a line and for a reason. -/
  | rejected (line : Nat) (cause : ParseCause)
  deriving DecidableEq, Repr

/-- What a walk comes to; nothing if it does not end. -/
abbrev Walk :=
  ExceptT Halt Option

/-- What stands at a place, if the place is not beyond the end. -/
def lookup {α : Type} (items : List α) (place : Nat) : Walk α :=
  match items[place]? with
  | some item => pure item
  | none => throw .outOfRange

/-- How many places there are from `first` up to `stop`. -/
def distance (first stop : Nat) : Walk Nat :=
  if first ≤ stop then pure (stop - first) else throw .negative

/-- A byte as the character with its number. -/
def byteChar (byte : UInt8) : Char :=
  Char.ofNat byte.toNat

/-- The places at which lines start, behind the line feeds of some bytes; the first byte has the
place `place`. -/
def lineStartsFrom (place : Nat) : List UInt8 → List Nat
  | [] => []
  | byte :: bytes =>
    if byteChar byte = '\n' then (place + 1) :: lineStartsFrom (place + 1) bytes
    else lineStartsFrom (place + 1) bytes

/-- The places at which the lines of some bytes start. -/
def lineStartsOf (bytes : List UInt8) : List Nat :=
  0 :: lineStartsFrom 0 bytes

/-- The line that a place is on: as many lines as start there or before. -/
def lineIn (lineStarts : List Nat) (place : Nat) : Nat :=
  (lineStarts.takeWhile (· ≤ place)).length

/-- A script with the places at which its lines start. -/
structure ByteReader where
  /-- The bytes of the script. -/
  bytes : List UInt8
  /-- Where its lines start. -/
  lineStarts : List Nat
  /-- How it is to be read. -/
  dialect : Dialect

/-- What a token is, and from which byte to which one it goes. -/
structure TokenSpan where
  /-- What the token is. -/
  kind : TokenKind
  /-- The byte it starts at. -/
  start : Nat
  /-- The byte behind its last one. -/
  stop : Nat
  deriving DecidableEq, Repr

/-- The range of a token. -/
def TokenSpan.of (token : Token) : TokenSpan :=
  ⟨token.kind, token.start, token.stop⟩

namespace ByteReader

/-- The reader of some bytes. -/
def ofBytes (dialect : Dialect) (bytes : List UInt8) : ByteReader :=
  ⟨bytes, lineStartsOf bytes, dialect⟩

variable (reader : ByteReader)

/-- The byte at a place, if there is one. -/
def peek (place : Nat) : Option Char :=
  reader.bytes[place]?.map byteChar

/-- The source is rejected for what starts at a place and does not end. -/
def reject {α : Type} (start : Nat) (what : Unterminated) : Walk α :=
  throw (.rejected (lineIn reader.lineStarts start) (.unterminated what))

/-- The first place from `place` on whose byte does not satisfy `p`. -/
def skipWhile (reader : ByteReader) (p : Char → Bool) (place : Nat) : Walk Nat :=
  match reader.peek place with
  | none => pure place
  | some c => if p c then reader |>.skipWhile p (place + 1) else pure place
partial_fixpoint

/-- The place behind a comment between delimiters that starts at `start` and is open `depth` times
at `place`. -/
def skipBlockComment (reader : ByteReader) (start depth place : Nat) : Walk Nat :=
  match reader.peek place with
  | none => reader.reject start .blockComment
  | some c =>
    if c = '*' ∧ reader.peek (place + 1) = some '/' then
      if depth - 1 = 0 then pure (place + 2)
      else reader |>.skipBlockComment start (depth - 1) (place + 2)
    else if c = '/' ∧ reader.peek (place + 1) = some '*' ∧ reader.dialect = .kotlin then
      reader |>.skipBlockComment start (depth + 1) (place + 2)
    else reader |>.skipBlockComment start depth (place + 1)
partial_fixpoint

/-- The place behind an identifier between backticks that starts at `start`. -/
def scanBacktick (reader : ByteReader) (start place : Nat) : Walk Nat :=
  match reader.peek place with
  | none => reader.reject start .backtick
  | some c =>
    if c = '\n' then reader.reject start .backtick
    else if c = '`' then pure (place + 1)
    else reader |>.scanBacktick start (place + 1)
partial_fixpoint

/-- The place behind a literal between tripled quotes that starts at `start`. -/
def scanTriple (reader : ByteReader) (quote : Char) (start place : Nat) : Walk Nat :=
  match reader.peek place with
  | none => reader.reject start .string
  | some c =>
    if c = quote ∧ reader.peek (place + 1) = some quote ∧ reader.peek (place + 2) = some quote then
      reader.skipWhile (· == quote) (place + 3)
    else reader |>.scanTriple quote start (place + 1)
partial_fixpoint

mutual

/-- The place behind a quoted literal that starts at a place. -/
def scanString (reader : ByteReader) (start : Nat) : Walk Nat := do
  let quote := byteChar (← lookup reader.bytes start)
  if reader.peek (start + 1) = some quote ∧ reader.peek (start + 2) = some quote then
    reader.scanTriple quote start (start + 3)
  else reader |>.scanSimple quote start (start + 1)
partial_fixpoint

/-- The place behind a literal between single quotes that starts at `start`. -/
def scanSimple (reader : ByteReader) (quote : Char) (start place : Nat) : Walk Nat :=
  match reader.peek place with
  | none => reader.reject start .string
  | some c =>
    if c = '\n' then reader.reject start .string
    else if c = '\\' then reader |>.scanSimple quote start (place + 2)
    else if c = '$' ∧ quote = '"' ∧ reader.peek (place + 1) = some '\x7b' then do
      let place ← reader |>.skipTemplate start 1 (place + 2)
      reader |>.scanSimple quote start place
    else if c = quote then pure (place + 1)
    else reader |>.scanSimple quote start (place + 1)
partial_fixpoint

/-- The place behind an expression inside of `depth` braces, embedded in a literal that starts at
`start`. -/
def skipTemplate (reader : ByteReader) (start depth place : Nat) : Walk Nat :=
  match reader.peek place with
  | none => reader.reject start .template
  | some c =>
    if c = '\x7b' then reader |>.skipTemplate start (depth + 1) (place + 1)
    else if c = '\x7d' then
      if depth - 1 = 0 then pure (place + 1)
      else reader |>.skipTemplate start (depth - 1) (place + 1)
    else if c = '"' ∨ c = '\'' then do
      let place ← reader |>.scanString place
      reader |>.skipTemplate start depth place
    else reader |>.skipTemplate start depth (place + 1)
partial_fixpoint

end

/-- The place behind a literal between slashes that starts at `start`. -/
def scanSlashy (reader : ByteReader) (start place : Nat) : Walk Nat :=
  match reader.peek place with
  | none => reader.reject start .slashyString
  | some c =>
    if c = '\\' ∧ reader.peek (place + 1) = some '/' then reader |>.scanSlashy start (place + 2)
    else if c = '$' ∧ reader.peek (place + 1) = some '\x7b' then do
      let place ← reader.skipTemplate start 1 (place + 2)
      reader |>.scanSlashy start place
    else if c = '/' then pure (place + 1)
    else reader |>.scanSlashy start (place + 1)
partial_fixpoint

/-- What is read at a place where `c` stands, behind a token of kind `before`: what the token is,
unless it is a blank or a comment, and the place behind it. -/
def scanPiece (before : Option TokenKind) (c : Char) (place : Nat) :
    Walk (Option TokenKind × Nat) :=
  if isGap c then pure (none, place + 1)
  else if c = '\n' then pure (some .newline, place + 1)
  else if c = ';' then pure (some .semicolon, place + 1)
  else if c = '/' ∧ reader.peek (place + 1) = some '/' then
    return (none, ← reader.skipWhile (· != '\n') place)
  else if c = '/' ∧ reader.peek (place + 1) = some '*' then
    return (none, ← reader.skipBlockComment place 1 (place + 2))
  else if c = '/' ∧ reader.dialect = .groovy ∧ startsOperand before then
    return (some .string, ← reader.scanSlashy place (place + 1))
  else if c = '"' ∨ c = '\'' then
    return (some .string, ← reader.scanString place)
  else if c = '`' then
    return (some .word, ← reader.scanBacktick place (place + 1))
  else
    match Bracket.ofOpener? c, Bracket.ofCloser? c with
    | some bracket, _ => pure (some (.opening bracket), place + 1)
    | none, some bracket => pure (some (.closing bracket), place + 1)
    | none, none =>
      if isWordChar c then return (some .word, ← reader.skipWhile isWordChar place)
      else pure (some (.punct c), place + 1)

/-- The tokens of a script, given those before a place. -/
def tokenizeFrom (reader : ByteReader) (found : List TokenSpan) (place : Nat) :
    Walk (List TokenSpan) :=
  match reader.peek place with
  | none => pure found
  | some c => do
    let (kind, stop) ← reader.scanPiece (found.getLast?.map (·.kind)) c place
    match kind with
    | none => reader |>.tokenizeFrom found stop
    | some kind => reader |>.tokenizeFrom (found ++ [⟨kind, place, stop⟩]) stop
partial_fixpoint

/-- The tokens of a script, behind a first line that names an interpreter. -/
def tokenize : Walk (List TokenSpan) := do
  if reader.peek 0 = some '#' ∧ reader.peek 1 = some '!' then
    reader.tokenizeFrom [] (← reader.skipWhile (· != '\n') 0)
  else reader.tokenizeFrom [] 0

end ByteReader

/-! ## Bytes of characters -/

/-- The bytes of a text in UTF-8. -/
def bytesOf (text : List Char) : List UInt8 :=
  text.flatMap String.utf8EncodeChar

/-- A text has as many bytes as its characters have together. -/
theorem length_bytesOf (text : List Char) : (bytesOf text).length = Text.byteLength text := by
  induction text with
  | nil => rfl
  | cons c text ih =>
    rw [bytesOf, List.flatMap_cons, List.length_append, String.length_utf8EncodeChar,
      Text.byteLength_cons]
    exact congrArg _ ih

/-- An ASCII character is its only byte. -/
theorem byteChar_ascii {c : Char} (hascii : c.toNat < 128) :
    (String.utf8EncodeChar c).map byteChar = [c] := by
  have hvalue : c.val.toNat ≤ 127 := Nat.le_of_lt_succ hascii
  have hbyte : (UInt8.ofNat c.toNat).toNat = c.toNat := by
    rw [UInt8.toNat_ofNat', Nat.mod_eq_of_lt (by omega)]
  simp only [String.utf8EncodeChar, if_pos hvalue, List.map_cons, List.map_nil]
  exact congrArg (fun c => [c]) ((congrArg Char.ofNat hbyte).trans (Char.ofNat_toNat c))

/-- The bytes of a character beyond ASCII are all beyond ASCII. -/
theorem wide_of_mem {c : Char} (hwide : 128 ≤ c.toNat) {byte : UInt8}
    (hbyte : byte ∈ String.utf8EncodeChar c) : 128 ≤ (byteChar byte).toNat := by
  have hall : ∀ byte ∈ String.utf8EncodeChar c, 128 ≤ byte.toNat := by
    have hlow : 128 ≤ c.val.toNat := hwide
    have hhigh : c.val.toNat < 0x110000 := by
      have hvalid : c.val.toNat.isValidChar := c.valid
      rcases hvalid with h | ⟨-, h⟩ <;> omega
    unfold String.utf8EncodeChar
    generalize c.val.toNat = value at hlow hhigh
    simp only
    rw [if_neg (by omega)]
    split_ifs <;>
      simp (disch := omega) only [List.mem_cons, List.not_mem_nil, forall_eq_or_imp, or_false,
        forall_eq, UInt8.toNat_ofNat', Nat.mod_eq_of_lt] <;> omega
  have hsmall : byte.toNat < 256 := byte.toNat_lt
  rw [byteChar, Char.ofNat, dif_pos (Or.inl (by omega))]
  exact hall byte hbyte

/-- The first byte of a character. -/
def lead (c : Char) : Char :=
  byteChar ((String.utf8EncodeChar c).headD 0)

/-- A character beyond ASCII is none of ASCII. -/
theorem ne_of_wide {c d : Char} (hwide : 128 ≤ c.toNat) (hascii : d.toNat < 128) : c ≠ d := by
  rintro rfl
  omega

/-- The first byte of a character is the character itself, or both are beyond ASCII. -/
theorem lead_cases (c : Char) : lead c = c ∨ 128 ≤ (lead c).toNat ∧ 128 ≤ c.toNat := by
  have hlength := String.length_utf8EncodeChar c
  have hsize := c.utf8Size_pos
  obtain ⟨byte, bytes, hbytes⟩ := List.exists_cons_of_length_pos (hlength ▸ hsize)
  rw [lead, hbytes, List.headD_cons]
  by_cases hascii : c.toNat < 128
  · have hmap := byteChar_ascii hascii
    rw [hbytes, List.map_cons] at hmap
    exact Or.inl (List.cons.inj hmap).1
  · exact Or.inr ⟨wide_of_mem (by omega) (hbytes ▸ List.mem_cons_self ..), by omega⟩

/-- The first byte of a character tells whether it is some ASCII character. -/
theorem lead_eq_iff {c d : Char} (hascii : d.toNat < 128) : lead c = d ↔ c = d := by
  rcases lead_cases c with hsame | ⟨hlead, hwide⟩
  · rw [hsame]
  · exact iff_of_false (ne_of_wide hlead hascii) (ne_of_wide hwide hascii)

/-- The first byte of a character has every property of it that all beyond ASCII share. -/
theorem apply_lead {α : Type} {f : Char → α}
    (hwide : ∀ c d : Char, 128 ≤ c.toNat → 128 ≤ d.toNat → f c = f d) (c : Char) :
    f (lead c) = f c := by
  rcases lead_cases c with hsame | ⟨hlead, hwide'⟩
  · rw [hsame]
  · exact hwide _ _ hlead hwide'

namespace ByteReader

variable {reader : ByteReader} {place : Nat} {c : Char} {text : List Char}

/-! ## Walks at a text -/

/-- The bytes from a place on are those of a text. -/
def At (reader : ByteReader) (place : Nat) (text : List Char) : Prop :=
  ∃ before, reader.bytes = before ++ bytesOf text ∧ before.length = place

/-- Nothing stands behind the last byte. -/
theorem peek_of_length_le (h : reader.bytes.length ≤ place) : reader.peek place = none := by
  rw [peek, List.getElem?_eq_none h, Option.map_none]

namespace At

/-- A place and what is read there make up all the bytes. -/
theorem length (h : reader.At place text) :
    place + Text.byteLength text = reader.bytes.length := by
  obtain ⟨before, hbytes, rfl⟩ := h
  rw [hbytes, List.length_append, length_bytesOf]

theorem peek_nil (h : reader.At place []) : reader.peek place = none :=
  peek_of_length_le (by have := h.length; simp at this; omega)

/-- The bytes of the next character stand one behind the other. -/
theorem peek_add (h : reader.At place (c :: text)) {index : Nat} (hindex : index < c.utf8Size) :
    reader.peek (place + index) = (String.utf8EncodeChar c)[index]?.map byteChar := by
  obtain ⟨before, hbytes, rfl⟩ := h
  rw [← String.length_utf8EncodeChar c] at hindex
  rw [peek, hbytes, List.getElem?_append_right (by omega), Nat.add_sub_cancel_left, bytesOf,
    List.flatMap_cons, List.getElem?_append_left hindex]

/-- The next byte is the first one of the next character. -/
theorem peek_cons (h : reader.At place (c :: text)) : reader.peek place = some (lead c) := by
  have hlength := String.length_utf8EncodeChar c
  obtain ⟨byte, bytes, hbytes⟩ := List.exists_cons_of_length_pos (hlength ▸ c.utf8Size_pos)
  have hpeek := h.peek_add c.utf8Size_pos
  rw [Nat.add_zero] at hpeek
  rw [hpeek, lead, hbytes]
  rfl

/-- What is read behind a character. -/
theorem tail (h : reader.At place (c :: text)) : reader.At (place + c.utf8Size) text := by
  obtain ⟨before, hbytes, rfl⟩ := h
  refine ⟨before ++ String.utf8EncodeChar c, ?_, ?_⟩
  · rw [hbytes, List.append_assoc]
    rfl
  · rw [List.length_append, String.length_utf8EncodeChar]

/-- What is read behind an ASCII character. -/
theorem next (h : reader.At place (c :: text)) (hascii : c.toNat < 128) :
    reader.At (place + 1) text := by
  have hsize : c.utf8Size = 1 := by
    have := congrArg List.length (byteChar_ascii hascii)
    rwa [List.length_map, String.length_utf8EncodeChar] at this
  exact hsize ▸ h.tail

/-- The byte behind an ASCII character is a given ASCII character if the next character is. -/
theorem peek_eq_iff (h : reader.At place text) {d : Char} (hascii : d.toNat < 128) :
    reader.peek place = some d ↔ text.head? = some d := by
  cases text with
  | nil => simp [h.peek_nil]
  | cons c text => simp [h.peek_cons, lead_eq_iff hascii]

/-- Two bytes are given ASCII characters if the next two characters are. -/
theorem peek_pair (h : reader.At place (c :: text)) {d e : Char} (hfirst : d.toNat < 128)
    (hsecond : e.toNat < 128) :
    lead c = d ∧ reader.peek (place + 1) = some e ↔ c = d ∧ text.head? = some e := by
  rw [lead_eq_iff hfirst]
  refine and_congr_right ?_
  rintro rfl
  exact (h.next hfirst).peek_eq_iff hsecond

/-- What is read behind two ASCII characters. -/
theorem skip_pair (h : reader.At place (c :: text)) {d e : Char}
    (hpair : c = d ∧ text.head? = some e) (hascii : d.toNat < 128 ∧ e.toNat < 128) :
    reader.At (place + 2) text.tail := by
  obtain ⟨rfl, hhead⟩ := hpair
  obtain ⟨later, rfl⟩ := List.head?_eq_some_iff.mp hhead
  exact (h.next hascii.1).next hascii.2

/-- A walk that moves on over bytes beyond ASCII moves on to the end of a character, once it is
inside. -/
theorem pass {β : Type} (walk : Nat → β) (h : reader.At place (c :: text))
    (hwide : ∀ place d, reader.peek place = some d → 128 ≤ d.toNat →
      walk place = walk (place + 1)) :
    walk (place + 1) = walk (place + c.utf8Size) := by
  by_cases hascii : c.toNat < 128
  · have := h.length
    have := (h.next hascii).length
    rw [Text.byteLength_cons] at *
    rw [show c.utf8Size = 1 by omega]
  · have hall : ∀ count, count + 1 ≤ c.utf8Size →
        walk (place + 1) = walk (place + (count + 1)) := by
      intro count hcount
      induction count with
      | zero => rfl
      | succ count ih =>
        rw [ih (by omega)]
        have hindex : count + 1 < (String.utf8EncodeChar c).length := by
          rw [String.length_utf8EncodeChar]
          omega
        have hpeek := h.peek_add (show count + 1 < c.utf8Size by omega)
        rw [List.getElem?_eq_getElem hindex, Option.map_some] at hpeek
        exact hwide _ _ hpeek (wide_of_mem (by omega) (List.getElem_mem hindex))
    have hsize := c.utf8Size_pos
    obtain ⟨count, hcount⟩ : ∃ count, c.utf8Size = count + 1 := ⟨c.utf8Size - 1, by omega⟩
    rw [hcount]
    exact hall count (by omega)

end At

end ByteReader

/-! ## Lines -/

/-- As many lines start up to a place as there are line feeds before it. -/
theorem length_takeWhile_lineStartsFrom (bytes : List UInt8) (first place : Nat) :
    ((lineStartsFrom first bytes).takeWhile (· ≤ place)).length =
      (bytes.take (place - first)).countP (byteChar · == '\n') := by
  induction bytes generalizing first with
  | nil => simp [lineStartsFrom]
  | cons byte bytes ih =>
    have hbehind : place ≤ first →
        (lineStartsFrom (first + 1) bytes).takeWhile (· ≤ place) = [] := by
      intro hplace
      rw [← List.length_eq_zero_iff, ih, show place - (first + 1) = 0 by omega, List.take_zero,
        List.countP_nil]
    by_cases hplace : place ≤ first
    · rw [show place - first = 0 by omega, List.take_zero, List.countP_nil, lineStartsFrom]
      split
      · rw [List.takeWhile_cons, if_neg (by simpa using Nat.lt_succ_of_le hplace),
          List.length_nil]
      · rw [hbehind hplace, List.length_nil]
    · rw [show place - first = place - (first + 1) + 1 by omega, List.take_succ_cons,
        List.countP_cons, ← ih, lineStartsFrom]
      split
      · rename_i hfeed
        rw [List.takeWhile_cons, if_pos (by simp; omega), List.length_cons]
        simp [hfeed]
      · rename_i hfeed
        simp [hfeed]

/-- The line feeds of a text are bytes of their own. -/
theorem countP_bytesOf (text : List Char) :
    (bytesOf text).countP (byteChar · == '\n') = Text.newlines text := by
  induction text with
  | nil => rfl
  | cons c text ih =>
    rw [bytesOf, List.flatMap_cons, List.countP_append, ← bytesOf, ih, Text.newlines, Text.newlines,
      List.count_cons, Nat.add_comm]
    congr 1
    by_cases hascii : c.toNat < 128
    · have hmap : (String.utf8EncodeChar c).countP (byteChar · == '\n') =
          ((String.utf8EncodeChar c).map byteChar).countP (· == '\n') := by
        rw [List.countP_map]
        rfl
      rw [hmap, byteChar_ascii hascii, List.countP_cons, List.countP_nil, Nat.zero_add]
    · rw [if_neg (by simpa using ne_of_wide (d := '\n') (by omega) (by decide)),
        List.countP_eq_zero]
      intro byte hbyte
      simpa using ne_of_wide (d := '\n') (wide_of_mem (by omega) hbyte) (by decide)

namespace ByteReader

/-- The reader has the bytes of a source, and knows where its lines start. -/
structure Reads (reader : ByteReader) (source : List Char) : Prop where
  /-- Its bytes are those of the source. -/
  bytes : reader.bytes = bytesOf source
  /-- Its lines start behind the line feeds. -/
  lineStarts : reader.lineStarts = lineStartsOf reader.bytes

variable {reader : ByteReader} {source : List Char} {place : Nat} {c : Char} {text : List Char}

/-- A walk starts at the whole source. -/
theorem Reads.at_zero (hreader : reader.Reads source) : reader.At 0 source :=
  ⟨[], hreader.bytes, rfl⟩

/-- The line of a place is that of the text read there. -/
theorem Reads.lineAt (hreader : reader.Reads source) (h : reader.At place text) :
    lineIn reader.lineStarts place = lineOfEnd source text := by
  obtain ⟨before, hbytes, rfl⟩ := h
  have hsource := countP_bytesOf source
  rw [← hreader.bytes, hbytes, List.countP_append, countP_bytesOf] at hsource
  rw [lineIn, hreader.lineStarts, lineStartsOf, List.takeWhile_cons, if_pos (by simp),
    List.length_cons, length_takeWhile_lineStartsFrom, hbytes, Nat.sub_zero, List.take_left,
    lineOfEnd]
  omega

/-! ## Walks beside scans -/

/-- A walk comes to something that agrees with what a scan finds, or the source is rejected where
the scan finds no end. -/
def Traces {α β : Type} (source : List Char) (agrees : α → β → Prop) (walk : Walk α) :
    Except OpenEnded β → Prop
  | .ok found => ∃ place, walk = pure place ∧ agrees place found
  | .error ended =>
    walk = throw (.rejected (lineOfEnd source ended.text) (.unterminated ended.what))

/-- A walk beside a scan may be followed by another walk beside another scan. -/
theorem Traces.bind {α β γ δ : Type} {agrees : α → β → Prop} {concurs : γ → δ → Prop}
    {walk : Walk α} {scan : Except OpenEnded β} {next : α → Walk γ}
    {later : β → Except OpenEnded δ} (h : Traces source agrees walk scan)
    (hnext : ∀ place rest, scan = .ok rest → agrees place rest →
      Traces source concurs (next place) (later rest)) :
    Traces source concurs (walk >>= next) (scan >>= later) := by
  cases scan with
  | error ended =>
    have hwalk : walk = throw _ := h
    rw [hwalk]
    rfl
  | ok rest =>
    obtain ⟨place, rfl, hplace⟩ := h
    exact hnext place rest rfl hplace

/-- A walk beside a scan may be chosen by the same condition as the scan. -/
theorem Traces.ite {α β : Type} {agrees : α → β → Prop} {p : Prop} {here there : Decidable p}
    {walk otherWalk : Walk α} {scan otherScan : Except OpenEnded β}
    (hyes : p → Traces source agrees walk scan)
    (hno : ¬p → Traces source agrees otherWalk otherScan) :
    Traces source agrees (@ite _ p here walk otherWalk) (@ite _ p there scan otherScan) := by
  by_cases h : p
  · rw [if_pos h, if_pos h]
    exact hyes h
  · rw [if_neg h, if_neg h]
    exact hno h

/-- A walk beside a scan agrees with what is made of what the scan finds. -/
theorem Traces.map {α β γ : Type} {agrees : α → β → Prop} {concurs : α → γ → Prop} {walk : Walk α}
    {scan : Except OpenEnded β} {make : β → γ} (h : Traces source agrees walk scan)
    (hmake : ∀ place found, agrees place found → concurs place (make found)) :
    Traces source concurs walk (scan.map make) := by
  cases scan with
  | error ended => exact h
  | ok found =>
    obtain ⟨place, hwalk, hplace⟩ := h
    exact ⟨place, hwalk, hmake place found hplace⟩

/-- What starts at a text and does not end is rejected on the line of that text. -/
theorem Reads.reject {α β : Type} {agrees : α → β → Prop} (hreader : reader.Reads source)
    (h : reader.At place text) (what : Unterminated) :
    Traces source agrees (reader.reject place what) (.error ⟨what, text⟩) := by
  rw [Traces, ByteReader.reject, hreader.lineAt h]

/-- A walk over characters of a kind leaves what the text has behind them. -/
theorem At.skipWhile {p : Char → Bool}
    (hp : ∀ c d : Char, 128 ≤ c.toNat → 128 ≤ d.toNat → p c = p d) (h : reader.At place text) :
    ∃ stop, reader.skipWhile p place = pure stop ∧ reader.At stop (text.dropWhile p) := by
  induction text generalizing place with
  | nil =>
    rw [ByteReader.skipWhile, h.peek_nil]
    exact ⟨place, rfl, h⟩
  | cons c text ih =>
    rw [ByteReader.skipWhile, h.peek_cons]
    simp only [apply_lead hp, List.dropWhile_cons]
    cases hc : p c with
    | false => exact ⟨place, rfl, h⟩
    | true =>
      by_cases hascii : c.toNat < 128
      · exact ih (h.next hascii)
      · rw [if_pos rfl, h.pass (reader.skipWhile p) fun place d hpeek hwide => ?_]
        · exact ih h.tail
        · rw [ByteReader.skipWhile, hpeek]
          exact if_pos ((hp d c hwide (by omega)).trans hc)

/-- An identifier between backticks. -/
theorem scanBacktick_traces (hreader : reader.Reads source) {start : Nat} {opened : List Char}
    (hstart : reader.At start opened) (h : reader.At place text) :
    Traces source reader.At (reader.scanBacktick start place) (afterBacktick opened text) := by
  induction text generalizing place with
  | nil =>
    rw [scanBacktick, h.peek_nil]
    exact hreader.reject hstart _
  | cons c text ih =>
    rw [afterBacktick, scanBacktick, h.peek_cons]
    simp only [lead_eq_iff (d := '\n') (by decide), lead_eq_iff (d := '`') (by decide), beq_iff_eq]
    split_ifs with hline hclose
    · exact hreader.reject hstart _
    · exact ⟨_, rfl, h.next (hclose ▸ by decide)⟩
    · rw [h.pass (reader.scanBacktick start)]
      · exact ih h.tail
      · intro place d hpeek hwide
        rw [scanBacktick, hpeek]
        simp [ne_of_wide hwide]

/-- One step of a scan over a comment between delimiters. -/
theorem afterBlockComment_cons (nests : Bool) (opened : List Char) (depth : Nat) (c : Char)
    (text : List Char) :
    afterBlockComment nests opened depth (c :: text) =
      if c = '*' ∧ text.head? = some '/' then
        if depth - 1 = 0 then .ok text.tail
        else afterBlockComment nests opened (depth - 1) text.tail
      else if c = '/' ∧ text.head? = some '*' ∧ nests = true then
        afterBlockComment nests opened (depth + 1) text.tail
      else afterBlockComment nests opened depth text := by
  cases text with
  | nil => simp [afterBlockComment]
  | cons d text =>
    rw [afterBlockComment]
    simp only [Bool.and_eq_true, beq_iff_eq, List.head?_cons, Option.some.injEq, List.tail_cons,
      Nat.sub_eq_zero_iff_le]
    by_cases hnests : nests = true <;> simp [hnests]

/-- A comment between delimiters. -/
theorem skipBlockComment_traces (hreader : reader.Reads source) {start : Nat} {opened : List Char}
    (hstart : reader.At start opened) {depth : Nat} (h : reader.At place text) :
    Traces source reader.At (reader.skipBlockComment start depth place)
      (afterBlockComment (reader.dialect == .kotlin) opened depth text) := by
  induction hlength : text.length using Nat.strong_induction_on generalizing text place depth with
  | _ length ih =>
    cases text with
    | nil =>
      rw [skipBlockComment, h.peek_nil]
      exact hreader.reject hstart _
    | cons c text =>
      have hcloses := h.peek_pair (d := '*') (e := '/') (by decide) (by decide)
      have hopens := h.peek_pair (d := '/') (e := '*') (by decide) (by decide)
      rw [afterBlockComment_cons, skipBlockComment, h.peek_cons]
      simp only [hcloses, ← and_assoc, hopens, beq_iff_eq]
      split_ifs with hclose hlast hopen
      · exact ⟨_, rfl, h.skip_pair hclose (by decide)⟩
      · exact ih _ (by simp at *; omega) (h.skip_pair hclose (by decide)) rfl
      · exact ih _ (by simp at *; omega) (h.skip_pair hopen.1 (by decide)) rfl
      · rw [h.pass (reader.skipBlockComment start depth)]
        · exact ih _ (by simp at *; omega) h.tail rfl
        · intro place d hpeek hwide
          rw [skipBlockComment, hpeek]
          simp [ne_of_wide hwide]

end ByteReader

end CorpusFacts.Script
