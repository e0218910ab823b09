import CorpusFacts.Proofs.Properties.Escaping
import Mathlib.Data.List.TakeWhile

/-!
# Reading written files

A written file has entries and lines that hold none, in any order and with line ends of either kind.
Both readers find the breaks again: the one of logical lines on the lines as they are, the one of
keys and values on those with their leading blanks dropped. So every entry becomes one node, with
the line it starts on, and the text of the node gives back its key and its value.
-/

namespace CorpusFacts.Properties

/-- Dropping leading blanks in front of a row may drop blanks at the sign too, but nothing else. -/
theorem trimStart_row {row : List (List Char)} (hrow : ∀ piece ∈ row, IsPiece piece)
    {tail : List Char} (htail : ∀ c ∈ tail.head?, Text.isBlank c = false) :
    ∃ kept, Thins row kept ∧ Text.trimStart (row.flatten ++ tail) = kept.flatten ++ tail := by
  induction row with
  | nil =>
    refine ⟨[], .nil, ?_⟩
    simpa [Text.trimStart] using dropWhile_append_of_head (List.forall_mem_nil _) htail
  | cons piece row ih =>
    have hall : Thins (piece :: row) (piece :: row) := .refl _
    cases hrow piece (List.mem_cons_self ..) with
    | @space c hspacing =>
      obtain ⟨kept, hkept, htrim⟩ := ih fun other h => hrow other (List.mem_cons_of_mem _ h)
      refine ⟨kept, .drop hspacing hkept, ?_⟩
      rw [Text.trimStart] at htrim
      simpa [Text.trimStart, (isBlank_of_isSpacing hspacing).1] using htrim
    | plain _ hblank => exact ⟨_, hall, by simp [Text.trimStart, hblank]⟩
    | escaped _ _ =>
      have hslash : Text.isBlank '\\' = false := by decide
      exact ⟨_, hall, by simp [Text.trimStart, hslash]⟩

/-- The start of a line that a break may come before, as it is joined to the line before. -/
theorem joined_row {row : List (List Char)} (hrow : ∀ piece ∈ row, IsPiece piece)
    (tail : List Char) (htail : ∀ c ∈ tail.head?, Text.isBlank c = false) {margin : List Char}
    (hblank : ∀ c ∈ margin, Text.isBlank c = true) {joined : Bool}
    (hjoined : joined = true ∨ margin = []) :
    ∃ kept, Thins row kept ∧
      (if joined then Text.trimStart (margin ++ (row.flatten ++ tail))
        else margin ++ (row.flatten ++ tail)) = kept.flatten ++ tail := by
  cases joined with
  | false =>
    obtain rfl : margin = [] := by simpa using hjoined
    exact ⟨row, .refl row, rfl⟩
  | true =>
    obtain ⟨kept, hkept, htrim⟩ := trimStart_row hrow htail
    refine ⟨kept, hkept, ?_⟩
    rw [Text.trimStart] at htrim
    rw [if_pos rfl, Text.trimStart, List.dropWhile_append_of_pos hblank, htrim]

/-- The lines of a broken text are joined to its pieces again, some blanks at the sign aside. -/
theorem joinLines_spread {pieces : List (List Char)} {text : List Char}
    (h : Spread pieces text) (hpieces : ∀ piece ∈ pieces, IsPiece piece) {margin : List Char}
    (hblank : ∀ c ∈ margin, Text.isBlank c = true) (hmargin : '\n' ∉ margin) {joined : Bool}
    (hjoined : joined = true ∨ margin = []) :
    ∃ kept, Thins pieces kept ∧
      joinLines joined (Text.split '\n' (margin ++ text)) = kept.flatten := by
  induction h generalizing margin joined with
  | @row row hne =>
    obtain ⟨kept, hkept, htrim⟩ := joined_row hpieces [] (by simp) hblank hjoined
    have hline := ((isRow_flatten hne hpieces).indented hmargin).split_eq .feed
    rw [LineEnd.mark, List.append_nil] at hline
    have hends : '\r' ∉ kept.flatten :=
      (notMem_flatten fun piece h => hpieces piece (hkept.mem h)).2
    refine ⟨kept, hkept, ?_⟩
    rw [List.append_nil, List.append_nil] at htrim
    rw [hline, joinLines, htrim, dropReturns_of_notMem hends]
  | @broken row pieces text hne turn _ ih =>
    have hrow : ∀ piece ∈ row, IsPiece piece := fun piece h =>
      hpieces piece (List.mem_append_left _ h)
    obtain ⟨kept, hkept, htrim⟩ := joined_row hrow ('\\' :: turn.ending.mark)
      (by simp; decide) hblank hjoined
    obtain ⟨later, hlater, hjoin⟩ := ih (fun piece h => hpieces piece (List.mem_append_right _ h))
      turn.margin.areBlank turn.margin.oneLine (.inl rfl)
    have hsplit : Text.split '\n' (margin ++ (row.flatten ++ (turn.text ++ text))) =
        (margin ++ (row.flatten ++ '\\' :: turn.ending.mark)) ::
          Text.split '\n' (turn.margin.blanks ++ text) := by
      have := split_row ((isRow_flatten_slash hrow).indented hmargin) turn.ending
        (turn.margin.blanks ++ text)
      simpa [Break.text] using this
    have hdrop : dropReturns (kept.flatten ++ '\\' :: turn.ending.mark) =
        kept.flatten ++ ['\\'] := by
      have := dropReturns_mark (kept.flatten ++ ['\\']) turn.ending
      rw [dropReturns_concat (by decide)] at this
      simpa using this
    have hgoes : continues (kept.flatten ++ ['\\']) = true := by
      rw [continues_concat, continues_flatten fun piece h => hrow piece (hkept.mem h)]
      rfl
    obtain ⟨next, rest, hnext⟩ := List.exists_cons_of_ne_nil
      (Text.splitWhere_ne_nil (· == '\n') (turn.margin.blanks ++ text))
    rw [Text.split, hnext] at hjoin
    refine ⟨kept ++ later, hkept.append hlater, ?_⟩
    rw [hsplit, Text.split, hnext, joinLines, htrim, hdrop]
    simp [hgoes, hjoin]

/-- What an entry is written with. -/
def entryPieces (key value before after : List Char) (sign : Char) : List (List Char) :=
  key.map escapeChar ++ (before.map ([·]) ++ [sign] :: (after.map ([·]) ++ value.map escapeChar))

/-- No escaped text has blanks to drop at the sign. -/
theorem Thins.eq_of_escaped {text : List Char} {kept : List (List Char)}
    (h : Thins (text.map escapeChar) kept) : kept.flatten = text.flatMap escapeChar := by
  rw [h.eq_of_none, List.flatMap_def]
  intro c hspacing hmem
  obtain ⟨d, -, hd⟩ := List.mem_map.mp hmem
  rcases escapeChar_cases d with ⟨hself, hplain⟩ | ⟨e, hpair, -⟩
  · obtain rfl : d = c := by simpa [hself] using hd
    have hblank := (isBlank_of_isSpacing hspacing).1
    rw [hplain.blank] at hblank
    cases hblank
  · rw [hpair] at hd
    cases hd

/-- What is left of the blanks at the sign are blanks. -/
theorem Thins.spacing {blanks : List Char} {kept : List (List Char)}
    (h : Thins (blanks.map ([·])) kept) (hblanks : ∀ c ∈ blanks, isSpacing c = true) :
    ∀ c ∈ kept.flatten, isSpacing c = true := by
  intro c hc
  obtain ⟨piece, hpiece, hmem⟩ := List.mem_flatten.mp hc
  obtain ⟨d, hd, rfl⟩ := List.mem_map.mp (h.mem hpiece)
  obtain rfl := List.mem_singleton.mp hmem
  exact hblanks c hd

/-- The start of an escaped text means nothing to the scanners, or protects what does. -/
theorem head?_flatMap_escapeChar {text : List Char} {c : Char}
    (h : c ∈ (text.flatMap escapeChar).head?) : c = '\\' ∨ IsPlain c := by
  cases text with
  | nil => cases h
  | cons d text =>
    rcases escapeChar_cases d with ⟨hself, hplain⟩ | ⟨e, hpair, -⟩
    · obtain rfl : d = c := by simpa [hself] using h
      exact .inr hplain
    · exact .inl (by simpa [hpair, eq_comm] using h)

section Entries

variable {key value before after : List Char} {sign : Char}

/-- All that an entry is written with are pieces. -/
theorem isPiece_of_entry (hbefore : ∀ c ∈ before, isSpacing c = true)
    (hsign : isSign sign = true) (hafter : ∀ c ∈ after, isSpacing c = true) :
    ∀ piece ∈ entryPieces key value before after sign, IsPiece piece := by
  have hmark : IsPiece [sign] := by
    rcases (by simpa [isSign] using hsign : sign = '=' ∨ sign = ':') with rfl | rfl <;>
      exact .plain (by decide) (by decide)
  intro piece hpiece
  simp only [entryPieces, List.mem_append, List.mem_cons, List.mem_map] at hpiece
  rcases hpiece with ⟨c, -, rfl⟩ | ⟨c, hc, rfl⟩ | rfl | ⟨c, hc, rfl⟩ | ⟨c, -, rfl⟩
  · exact isPiece_escapeChar c
  · exact .space (hbefore c hc)
  · exact hmark
  · exact .space (hafter c hc)
  · exact isPiece_escapeChar c

/-- The text of an entry gives back its key and its value, however it is broken. -/
theorem splitEntry_spread {text : List Char}
    (h : Spread (entryPieces key value before after sign) text)
    (hbefore : ∀ c ∈ before, isSpacing c = true) (hsign : isSign sign = true)
    (hafter : ∀ c ∈ after, isSpacing c = true) : splitEntry text = (key, value) := by
  have hunjoined : false = true ∨ ([] : List Char) = [] := .inr rfl
  obtain ⟨kept, hkept, hjoin⟩ := joinLines_spread h (isPiece_of_entry hbefore hsign hafter)
    (by simp) (by simp) hunjoined
  obtain ⟨first, rest, rfl, hfirst, hrest⟩ := hkept.of_append
  obtain ⟨gap, rest, rfl, hgap, hrest⟩ := hrest.of_append
  have hplain : isSpacing sign = false := by
    rcases (by simpa [isSign] using hsign : sign = '=' ∨ sign = ':') with rfl | rfl <;> rfl
  obtain ⟨rest, rfl, htail⟩ : ∃ kept, rest = [sign] :: kept ∧
      Thins (after.map ([·]) ++ value.map escapeChar) kept := by
    cases hrest with
    | keep _ h => exact ⟨_, rfl, h⟩
    | drop hspacing _ => exact absurd hspacing (by simp [hplain])
  obtain ⟨next, last, rfl, hnext, hlast⟩ := htail.of_append
  have hvalue : ∀ c ∈ (value.flatMap escapeChar).head?, isSpacing c = false := by
    intro c hc
    rcases head?_flatMap_escapeChar hc with rfl | hplain
    · rfl
    · have := hplain.endsKey_eq
      simp only [endsKey, Bool.or_eq_false_iff] at this
      exact this.2
  have hseparator := dropSeparator_sign (hgap.spacing hbefore) hsign (hnext.spacing hafter) hvalue
  obtain ⟨c, tail, hhead, hends⟩ : ∃ c tail,
      gap.flatten ++ sign :: (next.flatten ++ value.flatMap escapeChar) = c :: tail ∧
        endsKey c = true := by
    cases hchars : gap.flatten with
    | nil => exact ⟨sign, _, rfl, by simp [endsKey, hsign]⟩
    | cons c chars =>
      have := hgap.spacing hbefore c (by simp [hchars])
      exact ⟨c, _, rfl, by simp [endsKey, this]⟩
  have hkey := splitKey_flatMap (fun c (_ : c ∈ key) rest => splitKey_escapeChar c rest) hends tail
  rw [List.nil_append] at hjoin
  rw [splitEntry, hjoin]
  simp only [List.flatten_append, List.flatten_cons, hfirst.eq_of_escaped, hlast.eq_of_escaped,
    List.singleton_append]
  rw [hhead, hkey, ← hhead, hseparator, unescape_escape, unescape_escape]

/-- An entry starts with its key, and so with neither a blank nor the mark of a comment. -/
theorem startsEntry_of_spread {text : List Char} (hkey : key ≠ [])
    (h : Spread (entryPieces key value before after sign) text)
    (hpieces : ∀ piece ∈ entryPieces key value before after sign, IsPiece piece) :
    ∀ c ∈ text.head?, startsEntry c = true := by
  intro c hc
  have hne : key.flatMap escapeChar ≠ [] := by
    obtain ⟨d, rest, rfl⟩ := List.exists_cons_of_ne_nil hkey
    simp [(isPiece_escapeChar d).ne_nil]
  rw [h.head?_eq hpieces, entryPieces, List.flatten_append, ← List.flatMap_def,
    List.head?_append_of_ne_nil _ hne] at hc
  rcases head?_flatMap_escapeChar hc with rfl | hplain
  · decide
  · simp [startsEntry, hplain.blank, hplain.comment]

end Entries

/-- A written entry: blanks, the key, a sign with blanks around it, and the value, broken or not. -/
structure WrittenEntry where
  /-- The key. -/
  key : List Char
  /-- There is one. -/
  key_ne_nil : key ≠ []
  /-- The value. -/
  value : List Char
  /-- The blanks before the entry. -/
  margin : Margin
  /-- The blanks before the sign. -/
  before : List Char
  /-- They are blanks that may stand there. -/
  before_spacing : ∀ c ∈ before, isSpacing c = true
  /-- The sign. -/
  sign : Char
  /-- It is one. -/
  sign_isSign : isSign sign = true
  /-- The blanks behind the sign. -/
  after : List Char
  /-- They are blanks that may stand there. -/
  after_spacing : ∀ c ∈ after, isSpacing c = true
  /-- The text behind the blanks. -/
  body : List Char
  /-- It is made up of the pieces of the entry. -/
  spread : Spread (entryPieces key value before after sign) body

namespace WrittenEntry

/-- The entry as it is written. -/
def text (entry : WrittenEntry) : List Char :=
  entry.margin.blanks ++ entry.body

/-- All that the entry is written with are pieces. -/
theorem isPiece (entry : WrittenEntry) :
    ∀ piece ∈ entryPieces entry.key entry.value entry.before entry.after entry.sign,
      IsPiece piece :=
  isPiece_of_entry entry.before_spacing entry.sign_isSign entry.after_spacing

end WrittenEntry

/-- Lines that hold no entry. -/
inductive IdleLine where
  /-- A blank line. -/
  | blank (margin : Margin)
  /-- A comment. -/
  | comment (margin : Margin) (mark : Char) (isMark : mark = '#' ∨ mark = '!')
      (said : List Char) (oneLine : '\n' ∉ said)

namespace IdleLine

/-- The line as it is written. -/
def text : IdleLine → List Char
  | blank margin => margin.blanks
  | comment margin mark _ said _ => margin.blanks ++ mark :: said

/-- It is one line. -/
theorem feed_notMem (line : IdleLine) : '\n' ∉ line.text := by
  cases line with
  | blank margin => exact margin.oneLine
  | comment margin mark isMark said oneLine =>
    have hmark : '\n' ≠ mark := by rcases isMark with rfl | rfl <;> decide
    simp [text, margin.oneLine, oneLine, hmark]

/-- It is passed over, whatever stands at its end. -/
theorem isIgnored_eq (line : IdleLine) (ending : LineEnd) :
    isIgnored (dropReturns (line.text ++ ending.mark)) = true := by
  rw [dropReturns_mark]
  cases line with
  | blank margin =>
    have hall : ∀ c ∈ dropReturns margin.blanks, Text.isBlank c = true := fun c hc =>
      margin.areBlank c (mem_of_mem_dropReturns hc)
    have : Text.trimStart (dropReturns margin.blanks) = [] := by
      rwa [Text.trimStart, List.dropWhile_eq_nil_iff]
    rw [text, isIgnored, this]
  | comment margin mark isMark said _ =>
    have hmark : mark ≠ '\r' ∧ Text.isBlank mark = false := by
      rcases isMark with rfl | rfl <;> decide
    have htrim : Text.trimStart (margin.blanks ++ mark :: dropReturns said) =
        mark :: dropReturns said := by
      rw [Text.trimStart, List.dropWhile_append_of_pos margin.areBlank,
        List.dropWhile_cons_of_neg (by simp [hmark.2])]
    rw [text, dropReturns_append hmark.1, isIgnored, htrim]
    simpa using isMark

end IdleLine

/-- What a file is written with. -/
inductive Item where
  /-- A line without an entry. -/
  | idle (line : IdleLine)
  /-- An entry. -/
  | entry (written : WrittenEntry)

namespace Item

/-- The item as it is written. -/
def text : Item → List Char
  | idle line => line.text
  | entry written => written.text

/-- The key and the value of an entry. -/
def entry? : Item → Option (List Char × List Char)
  | idle _ => none
  | entry written => some (written.key, written.value)

/-- The node of an entry at a place of a file. -/
def node? (offset line : Nat) : Item → Option Node
  | idle _ => none
  | entry written =>
    some (entryNode (offset + Text.byteLength written.margin.blanks)
      (offset + Text.byteLength written.text) line)

/-- Behind the item the reading goes on at the next line, with the node of its entry found. -/
theorem entryNodes_item (item : Item) (ending : LineEnd) (stop offset line : Nat)
    (rest : List (List Char)) :
    entryNodes stop offset line none (Text.split '\n' (item.text ++ ending.mark) ++ rest) =
      (item.node? offset line).toList ++
        entryNodes stop (offset + Text.byteLength (item.text ++ ending.text))
          (line + Text.newlines (item.text ++ ending.text)) none rest := by
  cases item with
  | idle idle =>
    have hline : '\n' ∉ idle.text ++ ending.mark := by
      simp [idle.feed_notMem, ending.feed_notMem_mark]
    have hsplit : Text.split '\n' (idle.text ++ ending.mark) = [idle.text ++ ending.mark] :=
      Text.splitWhere_of_none fun c hc => beq_false_of_ne (ne_of_mem_of_not_mem hc hline)
    have hlines : Text.newlines (idle.text ++ ending.text) = 1 := by
      rw [LineEnd.text, ← List.append_assoc, Text.newlines_append, Text.newlines,
        List.count_eq_zero_of_not_mem hline]
      rfl
    have hlength : Text.byteLength (idle.text ++ ending.text) =
        Text.byteLength (idle.text ++ ending.mark) + 1 := by
      rw [LineEnd.text, ← List.append_assoc, Text.byteLength_append _ ['\n']]
      rfl
    rw [text, hsplit, List.singleton_append, entryNodes_ignored (idle.isIgnored_eq ending), hlines,
      hlength]
    rfl
  | entry written =>
    have hpieces := written.isPiece
    exact entryNodes_logical (written.spread.isLogical hpieces)
      (startsEntry_of_spread written.key_ne_nil written.spread hpieces)
      written.margin.areBlank written.margin.oneLine ending stop offset line rest

/-- An item that ends with the file is read like any other. -/
theorem entryNodes_last (item : Item) (stop offset line : Nat) :
    entryNodes stop offset line none (physicalLines item.text) =
      (item.node? offset line).toList := by
  have hitem := item.entryNodes_item .feed stop offset line []
  rw [LineEnd.mark, List.append_nil, List.append_nil] at hitem
  suffices hlines : physicalLines item.text = Text.split '\n' item.text ∨
      physicalLines item.text = [] ∧ item.node? offset line = none by
    rcases hlines with hlines | ⟨hlines, hnode⟩
    · rw [hlines, hitem, entryNodes, List.append_nil]
    · rw [hlines, hnode]
      rfl
  cases item with
  | idle idle =>
    have hsplit : Text.split '\n' idle.text = [idle.text] :=
      Text.splitWhere_of_none fun c hc =>
        beq_false_of_ne (ne_of_mem_of_not_mem hc idle.feed_notMem)
    cases htext : idle.text with
    | nil => exact .inr ⟨by rw [text, htext]; rfl, rfl⟩
    | cons c chars =>
      rw [htext] at hsplit
      exact .inl (by rw [text, htext, physicalLines, hsplit]; simp)
  | entry written =>
    have hlogical := (written.spread.isLogical written.isPiece).indented written.margin.areBlank
      written.margin.oneLine
    exact .inl hlogical.physicalLines_eq

end Item

/-- A written file: items with their line ends, and one more that ends with the file, or none. -/
structure WrittenFile where
  /-- The items that end with their lines. -/
  items : List (Item × LineEnd)
  /-- The item that ends with the file. -/
  last : Option Item

namespace WrittenFile

/-- The text of a file. -/
def text (file : WrittenFile) : List Char :=
  (file.items.flatMap fun (item, ending) => item.text ++ ending.text) ++
    (file.last.map Item.text).getD []

/-- The keys and values of some items, each with the line that it starts on; the first item is on a
given line. -/
def entriesFrom (line : Nat) (last : Option Item) :
    List (Item × LineEnd) → List (Nat × List Char × List Char)
  | [] => ((last.bind Item.entry?).map (line, ·)).toList
  | (item, ending) :: items =>
    (item.entry?.map (line, ·)).toList ++
      entriesFrom (line + Text.newlines (item.text ++ ending.text)) last items

/-- The keys and values of a file, in order, each with the line that it starts on. -/
def entries (file : WrittenFile) : List (Nat × List Char × List Char) :=
  entriesFrom 1 file.last file.items

end WrittenFile

/-- What a node of a properties file says: what it is, where it starts, and its key and value. -/
def readNode (source : List Char) (node : Node) :
    NodeKind × Nat × List Char × List Char :=
  (node.kind, node.line, splitEntry (sliceBytes source node.start node.stop))

/-- What the nodes of a properties file say, in order. -/
def readFile (source : List Char) : List (NodeKind × Nat × List Char × List Char) :=
  (tree source).children.map (readNode source)

/-- The node of an item says what the item says. -/
theorem map_readNode_item (item : Item) (before after : List Char) (line : Nat) :
    ((item.node? (Text.byteLength before) line).toList.map
        (readNode (before ++ item.text ++ after))) =
      (item.entry?.map fun entry => (NodeKind.property, line, entry)).toList := by
  cases item with
  | idle idle => rfl
  | entry written =>
    have hslice := sliceBytes_middle (before ++ written.margin.blanks) written.body after
    have hentry := splitEntry_spread written.spread written.before_spacing written.sign_isSign
      written.after_spacing
    rw [Text.byteLength_append, List.append_assoc before] at hslice
    simp only [Item.node?, Item.entry?, Item.text, WrittenEntry.text, Option.toList_some,
      Option.map_some, List.map_cons, List.map_nil, readNode, entryNode, Node.kind, Node.line,
      Node.start, Node.stop, Text.byteLength_append, ← Nat.add_assoc, hslice, hentry]

namespace WrittenFile

/-- Behind any text, items are read as the entries they hold. -/
theorem map_readNode_entryNodes (items : List (Item × LineEnd)) (last : Option Item)
    (stop line : Nat) (before : List Char) :
    (entryNodes stop (Text.byteLength before) line none (physicalLines (text ⟨items, last⟩))).map
        (readNode (before ++ text ⟨items, last⟩)) =
      (entriesFrom line last items).map fun (line, entry) => (.property, line, entry) := by
  induction items generalizing before line with
  | nil =>
    cases last with
    | none => rfl
    | some item =>
      have hitem := map_readNode_item item before [] line
      rw [List.append_nil] at hitem
      have htext : text ⟨[], some item⟩ = item.text := rfl
      rw [htext, item.entryNodes_last, hitem, entriesFrom, Option.bind_some]
      cases item.entry? <;> rfl
  | cons first items ih =>
    obtain ⟨item, ending⟩ := first
    have htext : text ⟨(item, ending) :: items, last⟩ =
        item.text ++ ending.text ++ text ⟨items, last⟩ := by
      simp [text]
    have hlines : physicalLines (text ⟨(item, ending) :: items, last⟩) =
        Text.split '\n' (item.text ++ ending.mark) ++ physicalLines (text ⟨items, last⟩) := by
      have := physicalLines_append (item.text ++ ending.mark) (text ⟨items, last⟩)
      rw [htext, ← this]
      simp [LineEnd.text]
    have hitem := map_readNode_item item before (ending.text ++ text ⟨items, last⟩) line
    have hrest := ih (line + Text.newlines (item.text ++ ending.text))
      (before ++ (item.text ++ ending.text))
    rw [Text.byteLength_append] at hrest
    simp only [List.append_assoc] at hitem hrest
    rw [hlines, item.entryNodes_item, htext, List.map_append]
    simp only [List.append_assoc]
    rw [hitem, hrest, entriesFrom, List.map_append]
    cases item.entry? <;> rfl

/-- Reading a written file gives back its entries: one node for each pair, in order, with the line
that the pair starts on, and with a text that gives back key and value. -/
theorem readFile_text (file : WrittenFile) :
    readFile file.text = file.entries.map fun (line, entry) => (.property, line, entry) :=
  map_readNode_entryNodes file.items file.last _ 1 []

/-- The second entry of this file is broken in the middle of its key. -/
example : ∃ file : WrittenFile, file.text = "a:1\n# b\\\n ke\\\r\n  y = v\\\\".toList ∧
    file.entries = [(1, ['a'], ['1']), (3, "key".toList, "v\\".toList)] := by
  let none : Margin := ⟨[], by simp, by simp⟩
  let one : Margin := ⟨[' '], by simp [Text.isBlank], by decide⟩
  let two : Margin := ⟨[' ', ' '], by simp [Text.isBlank], by decide⟩
  let first : WrittenEntry := ⟨['a'], by simp, ['1'], none, [], by simp, ':', by decide, [],
    by simp, _, .row (by simp [entryPieces])⟩
  let second : WrittenEntry := ⟨['k', 'e', 'y'], by simp, ['v', '\\'], one, [' '],
    by simp [isSpacing], '=', by decide, [' '], by simp [isSpacing], _,
    @Spread.broken [['k'], ['e']] _ _ (by simp) ⟨.returnFeed, two⟩
      (@Spread.row [['y'], [' '], ['='], [' '], ['v'], ['\\', '\\']] (by simp))⟩
  let comment : IdleLine := .comment none '#' (.inl rfl) [' ', 'b', '\\'] (by decide)
  exact ⟨⟨[(.entry first, .feed), (.idle comment, .feed)], some (.entry second)⟩, by decide,
    by decide⟩

end WrittenFile

end CorpusFacts.Properties
