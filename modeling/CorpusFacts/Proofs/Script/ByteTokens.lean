import CorpusFacts.Proofs.Script.ByteReader

/-!
# Reading the tokens of a script by places

Literals between single quotes and embedded expressions hold each other: the walk over the one calls
the walk over the other. The scan over characters keeps what is open in a list instead, so it is
first taken apart at what closes. Both walks then come to where the scan does, by induction on the
length of the text, and so does the walk over the whole script: it finds the tokens of the script in
their places, or is rejected where the script is.
-/

namespace CorpusFacts.Script

namespace ByteReader

variable {reader : ByteReader} {source : List Char} {place : Nat} {c : Char} {text : List Char}

/-! ## Literals -/

section Scans

variable (outer : List OpenLiteral) (start text : List Char) (c : Char)

/-- Nothing is open any more. -/
theorem closeLiterals_nil : closeLiterals [] text = .ok text := by
  rw [closeLiterals]

/-- What is open at the end of a text does not end. -/
theorem closeLiterals_at_end (literal : OpenLiteral) :
    closeLiterals (literal :: outer) [] = .error literal.unterminated := by
  rw [closeLiterals]

/-- A scan goes on behind what it closes first. -/
theorem closeLiterals_append (inner outer : List OpenLiteral) (text : List Char) :
    closeLiterals (inner ++ outer) text = closeLiterals inner text >>= closeLiterals outer := by
  fun_induction closeLiterals inner text with
  | case1 => rfl
  | case2 => rfl
  | case18 start inner c hclose d text hescape hdollar ih =>
    rw [List.cons_append, closeLiterals.eq_def, ← ih]
    simp only [hclose, hescape, hdollar, Bool.false_eq_true, if_false, List.cons_append]
  | _ =>
    rw [List.cons_append, closeLiterals.eq_def]
    simp_all only [List.cons_append, if_true, if_false, Bool.false_eq_true, bind, Except.bind]

/-- One step of a scan between single quotes. -/
theorem closeLiterals_simple_cons {quote : Char} (hquote : quote = '"' ∨ quote = '\'') :
    closeLiterals [.simple quote start] (c :: text) =
      if c = '\n' then .error ⟨.string, start⟩
      else if c = '\\' then closeLiterals [.simple quote start] text.tail
      else if c = '$' ∧ quote = '"' ∧ text.head? = some '\x7b' then
        closeLiterals [.template 1 start] text.tail >>= closeLiterals [.simple quote start]
      else if c = quote then .ok text
      else closeLiterals [.simple quote start] text := by
  have happend := closeLiterals_append [.template 1 start] [.simple quote start] text.tail
  rw [List.cons_append, List.nil_append] at happend
  rw [closeLiterals.eq_def, ← happend]
  by_cases hescape : c = '\\'
  · cases text <;> simp [hescape, closeLiterals_at_end, OpenLiteral.unterminated]
  by_cases hdollar : c = '$'
  · subst hdollar
    have hclose : '$' ≠ quote := by rcases hquote with rfl | rfl <;> decide
    cases text <;> simp [hclose, closeLiterals_at_end, OpenLiteral.unterminated, ite_and]
  · simp [hescape, hdollar, closeLiterals_nil]

/-- All quotes at the end of a literal between tripled quotes belong to it. -/
theorem closeLiterals_triple_quotes (quote : Char) :
    closeLiterals [.triple quote start] (quote :: quote :: quote :: text) =
      .ok (text.dropWhile (· == quote)) := by
  induction text with
  | nil => simp [closeLiterals]
  | cons d text ih =>
    rw [closeLiterals.eq_def, List.dropWhile_cons]
    by_cases hquote : d = quote
    · subst hquote
      simpa using ih
    · simp [hquote, closeLiterals]

/-- One step of a scan between tripled quotes. -/
theorem closeLiterals_triple_cons (quote : Char) :
    closeLiterals [.triple quote start] (c :: text) =
      if c = quote ∧ text.head? = some quote ∧ text.tail.head? = some quote then
        .ok (text.tail.tail.dropWhile (· == quote))
      else closeLiterals [.triple quote start] text := by
  rcases text with _ | ⟨d, _ | ⟨e, after⟩⟩
  · simp [closeLiterals, OpenLiteral.unterminated]
  · simp [closeLiterals]
  · by_cases hclose : c = quote ∧ d = quote ∧ e = quote
    · obtain ⟨rfl, rfl, rfl⟩ := hclose
      simpa using closeLiterals_triple_quotes start after e
    · rw [closeLiterals.eq_def]
      simp [hclose, and_assoc]

/-- One step of a scan between slashes. -/
theorem closeLiterals_slashy_cons :
    closeLiterals [.slashy start] (c :: text) =
      if c = '\\' ∧ text.head? = some '/' then closeLiterals [.slashy start] text.tail
      else if c = '$' ∧ text.head? = some '\x7b' then
        closeLiterals [.template 1 start] text.tail >>= closeLiterals [.slashy start]
      else if c = '/' then .ok text
      else closeLiterals [.slashy start] text := by
  have happend := closeLiterals_append [.template 1 start] [.slashy start] text.tail
  rw [List.cons_append, List.nil_append] at happend
  rw [closeLiterals.eq_def, ← happend]
  by_cases hclose : c = '/'
  · simp [hclose, closeLiterals_nil]
  cases text with
  | nil => simp [hclose, closeLiterals_at_end, OpenLiteral.unterminated]
  | cons d text => simp [hclose]

/-- One step of a scan over an embedded expression. -/
theorem closeLiterals_template_cons (depth : Nat) :
    closeLiterals [.template depth start] (c :: text) =
      if c = '\x7b' then closeLiterals [.template (depth + 1) start] text
      else if c = '\x7d' then
        if depth - 1 = 0 then .ok text else closeLiterals [.template (depth - 1) start] text
      else if c = '"' ∨ c = '\'' then
        afterString c text >>= closeLiterals [.template depth start]
      else closeLiterals [.template depth start] text := by
  rw [closeLiterals.eq_def]
  by_cases hquote : c = '"' ∨ c = '\''
  · have hplain : c ≠ '\x7b' ∧ c ≠ '\x7d' := by rcases hquote with rfl | rfl <;> decide
    have happend (literal : OpenLiteral) := closeLiterals_append [literal] [.template depth start]
    rcases text with _ | ⟨d, _ | ⟨e, after⟩⟩
    · simp [hplain, hquote, afterString, ← happend]
    · simp [hplain, hquote, afterString, ← happend]
    · by_cases htriple : d = c ∧ e = c <;>
        simp [hplain, hquote, htriple, afterString, ← happend]
  · simp [hquote, Nat.sub_eq_zero_iff_le, closeLiterals_nil]

/-- A scan over a quoted literal sees by the next two characters whether quotes are tripled. -/
theorem afterString_eq (quote : Char) :
    afterString quote text =
      if text.head? = some quote ∧ text.tail.head? = some quote then
        closeLiterals [.triple quote (quote :: text)] text.tail.tail
      else closeLiterals [.simple quote (quote :: text)] text := by
  cases text with
  | nil => rfl
  | cons d text => simp [afterString_cons]

end Scans

section Walks

variable {start : Nat} {opened : List Char} {quote : Char}

/-- A literal between tripled quotes. -/
theorem scanTriple_traces (hreader : reader.Reads source) (hquote : quote.toNat < 128)
    (hstart : reader.At start opened) (h : reader.At place text) :
    Traces source reader.At (reader.scanTriple quote start place)
      (closeLiterals [.triple quote opened] text) := by
  induction text generalizing place with
  | nil =>
    rw [scanTriple, h.peek_nil, closeLiterals]
    exact hreader.reject hstart _
  | cons c text ih =>
    have hcloses : lead c = quote ∧ reader.peek (place + 1) = some quote ∧
        reader.peek (place + 2) = some quote ↔
          c = quote ∧ text.head? = some quote ∧ text.tail.head? = some quote := by
      rw [← and_assoc, ← and_assoc, h.peek_pair hquote hquote]
      refine and_congr_right fun hpair => ?_
      rw [(h.skip_pair hpair ⟨hquote, hquote⟩).peek_eq_iff hquote]
    rw [closeLiterals_triple_cons, scanTriple, h.peek_cons]
    simp only [hcloses]
    split_ifs with hclose
    · obtain ⟨rfl, hhead, hlast⟩ := hclose
      obtain ⟨later, hlater⟩ := List.head?_eq_some_iff.mp hlast
      have hbehind := h.skip_pair ⟨rfl, hhead⟩ ⟨hquote, hquote⟩
      rw [hlater] at hbehind
      obtain ⟨stop, hstop, hrest⟩ := (hbehind.next hquote).skipWhile (p := (· == c))
        fun d e hd he => by simp [ne_of_wide hd hquote, ne_of_wide he hquote]
      rw [hlater]
      exact ⟨stop, hstop, hrest⟩
    · rw [h.pass (reader.scanTriple quote start)]
      · exact ih h.tail
      · intro place d hpeek hwide
        rw [scanTriple, hpeek]
        simp [ne_of_wide hwide hquote]

/-- A literal between single quotes, if all that follows its next character is read as by a scan. -/
theorem scanSimple_traces_of (hreader : reader.Reads source) (hquote : quote = '"' ∨ quote = '\'')
    (hstart : reader.At start opened)
    (hsimple : ∀ later, later.length < text.length → ∀ place, reader.At place later →
      Traces source reader.At (reader.scanSimple quote start place)
        (closeLiterals [.simple quote opened] later))
    (htemplate : ∀ later, later.length < text.length → ∀ place, reader.At place later →
      Traces source reader.At (reader.skipTemplate start 1 place)
        (closeLiterals [.template 1 opened] later))
    (h : reader.At place text) :
    Traces source reader.At (reader.scanSimple quote start place)
      (closeLiterals [.simple quote opened] text) := by
  have hascii : quote.toNat < 128 := by rcases hquote with rfl | rfl <;> decide
  have hwide : ∀ place d, reader.peek place = some d → 128 ≤ d.toNat →
      reader.scanSimple quote start place = reader.scanSimple quote start (place + 1) := by
    intro place d hpeek hwide
    rw [scanSimple, hpeek]
    simp [ne_of_wide hwide, ne_of_wide hwide hascii]
  cases text with
  | nil =>
    rw [scanSimple, h.peek_nil, closeLiterals]
    exact hreader.reject hstart _
  | cons c text =>
    have hopens : lead c = '$' ∧ quote = '"' ∧ reader.peek (place + 1) = some '\x7b' ↔
        c = '$' ∧ quote = '"' ∧ text.head? = some '\x7b' := by
      rw [and_left_comm, h.peek_pair (by decide) (by decide), and_left_comm]
    rw [closeLiterals_simple_cons _ _ _ hquote, scanSimple, h.peek_cons]
    simp only [lead_eq_iff (d := '\n') (by decide), lead_eq_iff (d := '\\') (by decide),
      lead_eq_iff hascii, hopens]
    split_ifs with hline hescape hopen hclose
    · exact hreader.reject hstart _
    · -- The first byte of the escaped character is taken with the backslash.
      have hbehind := h.next (hescape ▸ by decide)
      cases text with
      | nil =>
        rw [scanSimple, peek_of_length_le (by have := hbehind.length; simp at this; omega)]
        rw [List.tail_nil, closeLiterals]
        exact hreader.reject hstart _
      | cons d later =>
        rw [hbehind.pass (reader.scanSimple quote start) hwide]
        exact hsimple later (by simp only [List.length_cons]; omega) _ hbehind.tail
    · have hinside := h.skip_pair ⟨hopen.1, hopen.2.2⟩ (by decide)
      have hshorter : text.tail.length < (c :: text).length := by
        rw [List.length_tail, List.length_cons]
        omega
      refine (htemplate _ hshorter _ hinside).bind ?_
      intro stop rest hrest hstop
      have := (closeLiterals_suffix hrest).length_le
      exact hsimple rest (by simp at *; omega) stop hstop
    · exact ⟨_, rfl, h.next (hclose ▸ hascii)⟩
    · rw [h.pass (reader.scanSimple quote start) hwide]
      exact hsimple text (by simp) _ h.tail

/-- What stands at a place is looked up there. -/
theorem lookup_of_peek {c : Char} (h : reader.peek place = some c) :
    ∃ byte, lookup reader.bytes place = pure byte ∧ byteChar byte = c := by
  obtain ⟨byte, hbyte, hchar⟩ := Option.map_eq_some_iff.mp h
  exact ⟨byte, by rw [lookup, hbyte], hchar⟩

/-- A quoted literal, if what follows its first quote is read as by a scan. -/
theorem scanString_traces_of (hreader : reader.Reads source) (hquote : quote = '"' ∨ quote = '\'')
    (hsimple : ∀ place, reader.At place text →
      Traces source reader.At (reader.scanSimple quote start place)
        (closeLiterals [.simple quote (quote :: text)] text))
    (h : reader.At start (quote :: text)) :
    Traces source reader.At (reader.scanString start) (afterString quote text) := by
  have hascii : quote.toNat < 128 := by rcases hquote with rfl | rfl <;> decide
  obtain ⟨byte, hlookup, hbyte⟩ := lookup_of_peek h.peek_cons
  have htriple : reader.peek (start + 1) = some quote ∧ reader.peek (start + 2) = some quote ↔
      text.head? = some quote ∧ text.tail.head? = some quote := by
    rw [(h.next hascii).peek_eq_iff hascii]
    exact and_congr_right fun hhead =>
      (h.skip_pair ⟨rfl, hhead⟩ ⟨hascii, hascii⟩).peek_eq_iff hascii
  rw [afterString_eq, scanString, hlookup, pure_bind, hbyte, (lead_eq_iff hascii).mpr rfl]
  simp only [htriple]
  split_ifs with hopens
  · obtain ⟨later, hlater⟩ := List.head?_eq_some_iff.mp hopens.2
    have hbehind := h.skip_pair ⟨rfl, hopens.1⟩ ⟨hascii, hascii⟩
    rw [hlater] at hbehind ⊢
    exact scanTriple_traces hreader hascii h (hbehind.next hascii)
  · exact hsimple _ (h.next hascii)

/-- An embedded expression, if all that follows its next character is read as by a scan. -/
theorem skipTemplate_traces_of (hreader : reader.Reads source) {depth : Nat}
    (hstart : reader.At start opened)
    (htemplate : ∀ later, later.length < text.length → ∀ depth place, reader.At place later →
      Traces source reader.At (reader.skipTemplate start depth place)
        (closeLiterals [.template depth opened] later))
    (hstring : ∀ quote later, text = quote :: later → quote = '"' ∨ quote = '\'' →
      Traces source reader.At (reader.scanString place) (afterString quote later))
    (h : reader.At place text) :
    Traces source reader.At (reader.skipTemplate start depth place)
      (closeLiterals [.template depth opened] text) := by
  cases text with
  | nil =>
    rw [skipTemplate, h.peek_nil, closeLiterals]
    exact hreader.reject hstart _
  | cons c text =>
    rw [closeLiterals_template_cons, skipTemplate, h.peek_cons]
    simp only [lead_eq_iff (d := '\x7b') (by decide), lead_eq_iff (d := '\x7d') (by decide),
      lead_eq_iff (d := '"') (by decide), lead_eq_iff (d := '\'') (by decide)]
    split_ifs with hopen hclose hlast hquote
    · exact htemplate text (by simp) _ _ (h.next (hopen ▸ by decide))
    · exact ⟨_, rfl, h.next (hclose ▸ by decide)⟩
    · exact htemplate text (by simp) _ _ (h.next (hclose ▸ by decide))
    · refine (hstring c text rfl hquote).bind fun stop rest hrest hstop => ?_
      have := (afterString_suffix hrest).length_le
      exact htemplate rest (by simp; omega) _ _ hstop
    · rw [h.pass (reader.skipTemplate start depth)]
      · exact htemplate text (by simp) _ _ h.tail
      · intro place d hpeek hwide
        rw [skipTemplate, hpeek]
        simp [ne_of_wide hwide]

/-- Literals between single quotes and embedded expressions, which hold each other. -/
theorem scanSimple_and_skipTemplate_traces (hreader : reader.Reads source) (length : Nat) :
    ∀ text : List Char, text.length < length → ∀ start opened, reader.At start opened →
      ∀ place, reader.At place text →
        (∀ quote, quote = '"' ∨ quote = '\'' →
          Traces source reader.At (reader.scanSimple quote start place)
            (closeLiterals [.simple quote opened] text)) ∧
        ∀ depth, Traces source reader.At (reader.skipTemplate start depth place)
          (closeLiterals [.template depth opened] text) := by
  induction length with
  | zero => simp
  | succ length ih =>
    intro text hlength start opened hstart place h
    have hsimple : ∀ quote, quote = '"' ∨ quote = '\'' →
        Traces source reader.At (reader.scanSimple quote start place)
          (closeLiterals [.simple quote opened] text) := fun quote hquote =>
      scanSimple_traces_of hreader hquote hstart
        (fun later hlater place hplace =>
          (ih later (by omega) start opened hstart place hplace).1 quote hquote)
        (fun later hlater place hplace =>
          (ih later (by omega) start opened hstart place hplace).2 1) h
    refine ⟨hsimple, fun depth => skipTemplate_traces_of hreader hstart
      (fun later hlater depth place hplace =>
        (ih later (by omega) start opened hstart place hplace).2 depth) ?_ h⟩
    rintro quote later rfl hquote
    exact scanString_traces_of hreader hquote (fun stop hstop =>
      (ih later (by simpa using hlength) place _ h stop hstop).1 quote hquote) h

/-- A quoted literal. -/
theorem scanString_traces (hreader : reader.Reads source) (hquote : quote = '"' ∨ quote = '\'')
    (h : reader.At start (quote :: text)) :
    Traces source reader.At (reader.scanString start) (afterString quote text) :=
  scanString_traces_of hreader hquote (fun place hplace =>
    (scanSimple_and_skipTemplate_traces hreader _ text (Nat.lt_succ_self _) start _ h place
      hplace).1 quote hquote) h

/-- A literal between slashes. -/
theorem scanSlashy_traces (hreader : reader.Reads source) (hstart : reader.At start opened)
    (h : reader.At place text) :
    Traces source reader.At (reader.scanSlashy start place)
      (closeLiterals [.slashy opened] text) := by
  induction hlength : text.length using Nat.strong_induction_on generalizing text place with
  | _ length ih =>
    cases text with
    | nil =>
      rw [scanSlashy, h.peek_nil, closeLiterals]
      exact hreader.reject hstart _
    | cons c text =>
      rw [closeLiterals_slashy_cons, scanSlashy, h.peek_cons]
      simp only [h.peek_pair (d := '\\') (e := '/') (by decide) (by decide),
        h.peek_pair (d := '$') (e := '\x7b') (by decide) (by decide),
        lead_eq_iff (d := '/') (by decide)]
      rw [List.length_cons] at hlength
      split_ifs with hescape hopen hclose
      · exact ih _ (by simp; omega) (h.skip_pair hescape (by decide)) rfl
      · refine ((scanSimple_and_skipTemplate_traces hreader _ _ (Nat.lt_succ_self _) start opened
          hstart _ (h.skip_pair hopen (by decide))).2 1).bind fun stop rest hrest hstop => ?_
        have := (closeLiterals_suffix hrest).length_le
        exact ih _ (by simp at *; omega) hstop rfl
      · exact ⟨_, rfl, h.next (hclose ▸ by decide)⟩
      · rw [h.pass (reader.scanSlashy start)]
        · exact ih _ (by omega) h.tail rfl
        · intro place d hpeek hwide
          rw [scanSlashy, hpeek]
          simp [ne_of_wide hwide]

end Walks

/-! ## Tokens -/

/-- A character beyond ASCII belongs to a word. -/
theorem isWordChar_of_wide (hwide : 128 ≤ c.toNat) : isWordChar c = true := by
  simp [isWordChar, hwide]

/-- A character beyond ASCII is no blank and no bracket. -/
theorem plain_of_wide (hwide : 128 ≤ c.toNat) :
    isGap c = false ∧ Bracket.ofOpener? c = none ∧ Bracket.ofCloser? c = none := by
  refine ⟨by simp [isGap, ne_of_wide hwide], ?_, ?_⟩
  · unfold Bracket.ofOpener?
    split <;> first | rfl | exact absurd rfl (ne_of_wide hwide (by decide))
  · unfold Bracket.ofCloser?
    split <;> first | rfl | exact absurd rfl (ne_of_wide hwide (by decide))

/-- What is read at a text is the next piece of it: its kind, if it is a token, and the place behind
it. -/
theorem scanPiece_traces (hreader : reader.Reads source) (before : Option TokenKind)
    (h : reader.At place (c :: text)) :
    Traces source (fun read piece => read.1 = piece.1.orBefore none ∧ reader.At read.2 piece.2)
      (reader.scanPiece before (lead c) place) (nextPiece reader.dialect before c text) := by
  have hgap : isGap (lead c) = isGap c := apply_lead (fun c d hc hd => by
    rw [(plain_of_wide hc).1, (plain_of_wide hd).1]) c
  have hopener : Bracket.ofOpener? (lead c) = Bracket.ofOpener? c := apply_lead (fun c d hc hd => by
    rw [(plain_of_wide hc).2.1, (plain_of_wide hd).2.1]) c
  have hcloser : Bracket.ofCloser? (lead c) = Bracket.ofCloser? c := apply_lead (fun c d hc hd => by
    rw [(plain_of_wide hc).2.2, (plain_of_wide hd).2.2]) c
  have hword : isWordChar (lead c) = isWordChar c := apply_lead (fun c d hc hd => by
    rw [isWordChar_of_wide hc, isWordChar_of_wide hd]) c
  have hline := h.peek_pair (d := '/') (e := '/') (by decide) (by decide)
  have hblock := h.peek_pair (d := '/') (e := '*') (by decide) (by decide)
  unfold scanPiece nextPiece
  simp only [hline, hblock, Bool.and_eq_true, Bool.or_eq_true, beq_iff_eq, and_assoc]
  simp only [hgap, hopener, hcloser, hword, lead_eq_iff (d := '\n') (by decide),
    lead_eq_iff (d := '/') (by decide), lead_eq_iff (d := ';') (by decide),
    lead_eq_iff (d := '`') (by decide), lead_eq_iff (d := '"') (by decide),
    lead_eq_iff (d := '\'') (by decide)]
  -- By what the piece is, in the order in which both look for it.
  refine Traces.ite (fun hisGap => ?_) fun _ => ?_
  · exact ⟨_, rfl, rfl, h.next (not_le.mp fun hwide => by simp [(plain_of_wide hwide).1] at hisGap)⟩
  refine Traces.ite (fun hbreak => ?_) fun _ => ?_
  · exact ⟨_, rfl, rfl, h.next (hbreak ▸ by decide)⟩
  refine Traces.ite (fun hsemicolon => ?_) fun _ => ?_
  · exact ⟨_, rfl, rfl, h.next (hsemicolon ▸ by decide)⟩
  refine Traces.ite (fun hisLine => ?_) fun _ => ?_
  · obtain ⟨stop, hstop, hrest⟩ := h.skipWhile (p := (· != '\n')) fun c d hc hd =>
      (bne_iff_ne.mpr (ne_of_wide hc (by decide))).trans
        (bne_iff_ne.mpr (ne_of_wide hd (by decide))).symm
    rw [hstop]
    refine ⟨_, rfl, rfl, ?_⟩
    rwa [List.dropWhile_cons, if_pos (by simp [hisLine.1])] at hrest
  refine Traces.ite (fun hisBlock => ?_) fun _ => ?_
  · exact (skipBlockComment_traces hreader h (h.skip_pair hisBlock (by decide))).bind
      fun stop rest _ hstop => ⟨_, rfl, rfl, hstop⟩
  refine Traces.ite (fun hslashy => ?_) fun _ => ?_
  · obtain rfl : c = '/' := hslashy.1
    exact (scanSlashy_traces hreader h (h.next (by decide))).bind fun stop rest _ hstop =>
      ⟨_, rfl, rfl, hstop⟩
  refine Traces.ite (fun hquote => ?_) fun _ => ?_
  · exact (scanString_traces hreader hquote h).bind fun stop rest _ hstop => ⟨_, rfl, rfl, hstop⟩
  refine Traces.ite (fun hbacktick => ?_) fun _ => ?_
  · exact (scanBacktick_traces hreader h (h.next (hbacktick ▸ by decide))).bind
      fun stop rest _ hstop => ⟨_, rfl, rfl, hstop⟩
  by_cases hplain : Bracket.ofOpener? c = none ∧ Bracket.ofCloser? c = none
  · rw [hplain.1, hplain.2]
    refine Traces.ite (fun hisWord => ?_) fun hisWord => ?_
    · obtain ⟨stop, hstop, hrest⟩ := h.skipWhile (p := isWordChar) fun c d hc hd => by
        rw [isWordChar_of_wide hc, isWordChar_of_wide hd]
      rw [hstop]
      refine ⟨_, rfl, rfl, ?_⟩
      rwa [List.dropWhile_cons, if_pos hisWord] at hrest
    · have hascii : c.toNat < 128 := not_le.mp fun hwide => hisWord (isWordChar_of_wide hwide)
      rw [(lead_eq_iff hascii).mpr rfl]
      exact ⟨_, rfl, rfl, h.next hascii⟩
  · have hascii : c.toNat < 128 := not_le.mp fun hwide => hplain (plain_of_wide hwide).2
    cases hopens : Bracket.ofOpener? c <;> cases hcloses : Bracket.ofCloser? c
    · exact absurd ⟨hopens, hcloses⟩ hplain
    all_goals exact ⟨_, rfl, rfl, h.next hascii⟩

/-- One step of cutting a text into pieces. -/
theorem piecesAfter_cons (rule : PieceRule) (before : Option TokenKind) (c : Char)
    (text : List Char) :
    rule.piecesAfter before (c :: text) = rule.next before c text >>= fun piece =>
      (rule.piecesAfter (piece.1.orBefore before) piece.2).map
        (⟨piece.1, c :: text.take (text.length - piece.2.length)⟩ :: ·) := by
  rw [PieceRule.piecesAfter]
  split
  · rename_i hnext
    rw [hnext]
    rfl
  · rename_i kind rest hnext
    simp only [hnext, bind, Except.bind]
    cases rule.piecesAfter (kind.orBefore before) rest <;> rfl

/-- The tokens read from a place on are those of the text there, in their places. -/
theorem tokenizeFrom_traces (hreader : reader.Reads source) (found : List TokenSpan) (line : Nat)
    (h : reader.At place text) :
    Traces source
      (fun spans pieces => spans = found ++ (tokensFrom place line pieces).map TokenSpan.of)
      (reader.tokenizeFrom found place)
      ((rule reader.dialect).piecesAfter (found.getLast?.map (·.kind)) text) := by
  induction hlength : text.length using Nat.strong_induction_on
    generalizing text place found line with
  | _ length ih =>
    cases text with
    | nil =>
      rw [tokenizeFrom, h.peek_nil, PieceRule.piecesAfter]
      exact ⟨found, rfl, by simp [tokensFrom]⟩
    | cons c text =>
      have hrule : (rule reader.dialect).next = nextPiece reader.dialect := rfl
      rw [tokenizeFrom, h.peek_cons, piecesAfter_cons, hrule]
      dsimp only
      have hpiece := scanPiece_traces hreader (found.getLast?.map (·.kind)) h
      refine Traces.bind hpiece ?_
      rintro ⟨kind?, stop⟩ ⟨kind, rest⟩ hnext ⟨hkind, hstop⟩
      obtain ⟨body, rfl⟩ := nextPiece_suffix hnext
      have hshorter : rest.length < length := by simp at hlength; omega
      have hplace : place + Text.byteLength (c :: body) = stop := by
        have hlong := h.length
        have hshort := hstop.length
        rw [← List.cons_append, Text.byteLength_append] at hlong
        simp only at hshort
        omega
      cases kind with
      | token kind =>
        obtain rfl : kind? = some kind := hkind
        have hlater := ih _ hshorter (found ++ [⟨kind, place, stop⟩])
          (line + Text.newlines (c :: body)) hstop rfl
        rw [List.getLast?_concat] at hlater
        refine hlater.map fun spans pieces hspans => ?_
        rw [hspans]
        simp [tokensFrom, ← hplace, TokenSpan.of, Token.stop]
      | _ =>
        obtain rfl : kind? = none := hkind
        refine (ih _ hshorter found (line + Text.newlines (c :: body)) hstop rfl).map
          fun spans pieces hspans => ?_
        rw [hspans]
        simp [tokensFrom, ← hplace]

/-- The first two bytes tell whether a script names an interpreter. -/
theorem names_iff (hreader : reader.Reads source) :
    reader.peek 0 = some '#' ∧ reader.peek 1 = some '!' ↔ ['#', '!'] <+: source := by
  cases source with
  | nil => simp [hreader.at_zero.peek_nil]
  | cons c text =>
    have hpair := hreader.at_zero.peek_pair (d := '#') (e := '!') (by decide) (by decide)
    rw [Nat.zero_add] at hpair
    rw [hreader.at_zero.peek_cons, Option.some.injEq, hpair]
    cases text <;> simp [eq_comm]

/-- The tokens that are read are those of the script, in their places. -/
theorem tokenize_traces (hreader : reader.Reads source) :
    Traces source (fun spans found => spans = found.map TokenSpan.of) reader.tokenize
      (tokens reader.dialect source) := by
  rw [tokens, tokenize]
  by_cases hnames : ['#', '!'] <+: source
  · obtain ⟨stop, hstop, hrest⟩ := hreader.at_zero.skipWhile (p := (· != '\n')) fun c d hc hd =>
      (bne_iff_ne.mpr (ne_of_wide hc (by decide))).trans
        (bne_iff_ne.mpr (ne_of_wide hd (by decide))).symm
    rw [if_pos ((names_iff hreader).mpr hnames), hstop, pure_bind, pieces_of_interpreter _ hnames]
    have hplace : Text.byteLength (source.takeWhile (· != '\n')) = stop := by
      have hlong := hreader.at_zero.length
      have hshort := hrest.length
      have hsplit := congrArg Text.byteLength
        (List.takeWhile_append_dropWhile (p := (· != '\n')) (l := source))
      rw [Text.byteLength_append] at hsplit
      omega
    have hpieces : Traces source
        (fun spans pieces => spans = (tokensFrom 0 1 pieces).map TokenSpan.of)
        (reader.tokenizeFrom [] stop)
        (((rule reader.dialect).piecesAfter none (source.dropWhile (· != '\n'))).map
          (⟨.interpreter, source.takeWhile (· != '\n')⟩ :: ·)) := by
      refine (tokenizeFrom_traces hreader [] (1 + Text.newlines (source.takeWhile (· != '\n')))
        hrest).map fun spans pieces hspans => ?_
      rw [hspans, tokensFrom, Nat.zero_add, hplace, List.nil_append]
    exact hpieces.map fun spans pieces hspans => hspans
  · rw [if_neg (mt (names_iff hreader).mp hnames), pieces_of_plain _ hnames]
    exact (tokenizeFrom_traces hreader [] 1 hreader.at_zero).map fun spans pieces hspans => hspans

end ByteReader

end CorpusFacts.Script
