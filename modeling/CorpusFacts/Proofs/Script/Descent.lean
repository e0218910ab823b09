import CorpusFacts.Proofs.Script.ByteTokens
import CorpusFacts.Proofs.Script.Coverage
import CorpusFacts.Proofs.Script.Statements
import Mathlib.Data.List.Induction

/-!
# Building a tree by the places of tokens

The builder of scripts keeps the number of the token that it has come to. A statement is read up to
where it ends; at a brace outside of its brackets it turns out to be the header of a block, and what
is inside the braces is read the same way. Tokens are looked up by their numbers: the one at hand,
those before and behind a line break, the first and the last one of a node, and the one behind a
body. Each lookup beyond the end stops the walk with a failure of its own.

The walk is compared with the outline, which keeps what is open in a draft instead of in calls. The
tokens are split at the statement at hand: those before it, its own so far, and the rest. The token
before a statement is never a sign, which is why the walk may look at it although the outline does
not. By induction on the number of tokens that are left, a statement, a block and a row of
statements each come to where the outline has the same draft as before with one more item, or with
more items.
-/

namespace CorpusFacts.Script

/-- The ranges of the tokens of a script, with the script and the places at which its lines
start. -/
structure TokenReader where
  /-- The ranges of the tokens. -/
  tokens : List TokenSpan
  /-- Where lines start. -/
  lineStarts : List Nat
  /-- The script. -/
  source : List Char

namespace TokenReader

variable (reader : TokenReader)

/-- The text of a token. -/
def text (token : TokenSpan) : List Char :=
  sliceBytes reader.source token.start token.stop

/-- The line that a token is on. -/
def line (token : TokenSpan) : Nat :=
  lineIn reader.lineStarts token.start

/-- The source is rejected for a token. -/
def reject {α : Type} (token : TokenSpan) (cause : ParseCause) : Walk α :=
  throw (.rejected (reader.line token) cause)

/-- The first place from `place` on where no separator stands. -/
def skipSeparators (reader : TokenReader) (place : Nat) : Walk Nat :=
  match reader.tokens[place]? with
  | none => pure place
  | some token =>
    if token.kind.isSeparator then reader |>.skipSeparators (place + 1) else pure place
partial_fixpoint

/-- The last place among `count` places from `first` on where no line break stands; without such a
place, the first one. -/
def lastSolid (first : Nat) : (count : Nat) → Walk Nat
  | 0 => pure first
  | count + 1 => do
    let token ← lookup reader.tokens (first + count)
    if token.kind = .newline then lastSolid first count else pure (first + count)

/-- The node over the tokens from `first` up to `stop`, without line breaks at its end. -/
def spanNode (kind : NodeKind) (role : Option Role) (first stop : Nat) : Walk Node := do
  let head ← lookup reader.tokens first
  let last ← lookup reader.tokens (← reader.lastSolid first (stop - first))
  pure (.mk kind role head.start last.stop (reader.line head) [])

/-- Whether a sign that two tokens end with is a doubled one; `place` is behind the second. -/
def isDoubled (mark : Char) (start place : Nat) : Walk Bool := do
  if 2 ≤ place then
    let before ← lookup reader.tokens (place - 2)
    pure (before.kind == .punct mark && before.stop == start)
  else pure false

/-- Whether a statement goes on behind the line break at a place because of how its line ends. -/
def lineEndsOpen (place : Nat) : Walk Bool := do
  if 0 < place then
    let previous ← lookup reader.tokens (place - 1)
    match previous.kind with
    | .punct mark => do
      let doubled ← reader.isDoubled mark previous.start place
      pure (['.', ',', '=', '/', '%', '&', '|', ':'].contains mark ||
        ((mark == '+' || mark == '-') && !doubled))
    | _ => pure false
  else pure false

/-- The tokens from a place on; the place may be that behind the last one, but not beyond it. -/
def tokensFromPlace (place : Nat) : Walk (List TokenSpan) :=
  if place ≤ reader.tokens.length then pure (reader.tokens.drop place) else throw .outOfRange

/-- Whether a statement goes on behind the line break at a place. -/
def goesOnBehind (place : Nat) : Walk Bool := do
  if ← reader.lineEndsOpen place then pure true
  else
    let rest ← reader.tokensFromPlace (place + 1)
    match rest.find? (·.kind ≠ .newline) with
    | some next =>
      pure ([.punct '.', .opening .curly, .punct '?', .punct '&', .punct '|'].contains next.kind)
    | none => pure false

/-- The node of the header of a block, from `first` up to the opening brace; none if it is empty. -/
def headerNode (first place : Nat) : Walk (Option Node) :=
  if first < place then some <$> reader.spanNode .blockHeader (some .header) first place
  else pure none

/-- What a statement with `count` tokens is for, given the first one. -/
def kindOfStatement (head : TokenSpan) (count : Nat) : NodeKind :=
  if head.kind = .word ∧ reader.text head = "import".toList ∧ 1 < count then .importDirective
  else if head.kind = .word ∧ reader.text head = "package".toList ∧ 1 < count then
    .packageDirective
  else .statement

/-- The statement with the tokens from `first` up to `stop`, where `opened` are the brackets open in
it; none may be. -/
def endStatement (opened : List TokenSpan) (first stop : Nat) : Walk (Node × Nat) :=
  match opened with
  | unclosed :: _ =>
    match unclosed.kind with
    | .opening bracket => reader.reject unclosed (.unclosed bracket)
    | _ => throw (.unbalanced (reader.line unclosed))
  | [] => do
    let head ← lookup reader.tokens first
    let count ← distance first stop
    let node ← reader.spanNode (reader.kindOfStatement head count) none first stop
    pure (node, stop)

mutual

/-- The statements from a place on, behind some nodes: up to the end, or up to the brace that closes
the one at hand. -/
def statements (reader : TokenReader) (brace : Option TokenSpan) (nodes : List Node) (place : Nat) :
    Walk (List Node × Nat) := do
  let place ← reader.skipSeparators place
  match reader.tokens[place]? with
  | none =>
    match brace with
    | some brace => reader.reject brace (.unclosed .curly)
    | none => pure (nodes, place)
  | some token =>
    match token.kind with
    | .closing bracket =>
      if bracket = .curly ∧ brace.isSome then pure (nodes, place)
      else reader.reject token (.unexpected bracket)
    | _ => do
      let (node, place) ← reader |>.statement [] place place
      reader |>.statements brace (nodes ++ [node]) place
partial_fixpoint

/-- The statement or block that starts at `first` and is read up to `place`, and the place behind
it; `opened` are the brackets open in the statement. -/
def statement (reader : TokenReader) (opened : List TokenSpan) (first place : Nat) :
    Walk (Node × Nat) :=
  match reader.tokens[place]? with
  | none => reader.endStatement opened first place
  | some token =>
    match token.kind with
    | .opening bracket =>
      if bracket = .curly ∧ opened = [] then reader |>.block first place
      else reader |>.statement (token :: opened) first (place + 1)
    | .closing bracket =>
      match opened with
      | [] => reader.endStatement [] first place
      | innermost :: outer =>
        match innermost.kind with
        | .opening expected =>
          if expected = bracket then reader |>.statement outer first (place + 1)
          else reader.reject token (.mismatched bracket expected)
        | _ => reader.endStatement (innermost :: outer) first place
    | .newline =>
      if opened = [] then do
        if ← reader.goesOnBehind place then reader |>.statement opened first (place + 1)
        else reader.endStatement opened first place
      else reader |>.statement opened first (place + 1)
    | .semicolon =>
      if opened = [] then reader.endStatement opened first place
      else reader |>.statement opened first (place + 1)
    | _ => reader |>.statement opened first (place + 1)
partial_fixpoint

/-- The block whose header starts at `first` and whose opening brace stands at a place, and the
place behind it. -/
def block (reader : TokenReader) (first place : Nat) : Walk (Node × Nat) := do
  let brace ← lookup reader.tokens place
  let header ← reader.headerNode first place
  let (body, place) ← reader |>.statements (some brace) [] (place + 1)
  let close ← lookup reader.tokens place
  let head ← lookup reader.tokens first
  pure (.mk .block none head.start close.stop (reader.line head) (header.toList ++ body), place + 1)
partial_fixpoint

end

/-- The tree of a script. -/
def build : Walk Node := do
  let (nodes, _) ← reader.statements none [] 0
  pure (.mk .script none 0 (Text.byteLength reader.source) 1 nodes)

end TokenReader

namespace TokenReader

/-- The reader has the tokens of a script, knows their lines, and finds their texts. -/
structure Reads (reader : TokenReader) (found : List Token) : Prop where
  /-- Its ranges are those of the tokens. -/
  tokens : reader.tokens = found.map TokenSpan.of
  /-- The line of each token is that of its start. -/
  lines : ∀ token ∈ found, lineIn reader.lineStarts token.start = token.line
  /-- Each token has its text in the script. -/
  texts : ∀ token ∈ found, sliceBytes reader.source token.start token.stop = token.text

variable {reader : TokenReader} {found before row rest : List Token} {token : Token}

/-! ## Lookups -/

/-- What stands behind some tokens is the next one. -/
theorem Reads.getElem? (hreader : reader.Reads found) (hfound : found = before ++ rest) :
    reader.tokens[before.length]? = rest.head?.map TokenSpan.of := by
  rw [hreader.tokens, hfound, List.getElem?_map, List.getElem?_append_right (Nat.le_refl _),
    Nat.sub_self, List.head?_eq_getElem?]

/-- A token is found by the number of those before it. -/
theorem Reads.lookup (hreader : reader.Reads found) (before : List Token) (token : Token)
    (rest : List Token) (hfound : found = before ++ token :: rest) :
    Script.lookup reader.tokens before.length = pure (.of token) := by
  rw [Script.lookup, hreader.getElem? hfound]
  rfl

/-- Separators are skipped. -/
theorem Reads.skipSeparators (hreader : reader.Reads found) (before : List Token)
    (hfound : found = before ++ rest) :
    ∃ gaps left, rest = gaps ++ left ∧ (∀ gap ∈ gaps, gap.kind.isSeparator = true) ∧
      StartsPlainly left ∧
      reader.skipSeparators before.length = pure (before ++ gaps).length := by
  induction rest generalizing before with
  | nil =>
    refine ⟨[], [], rfl, by simp, by simp [StartsPlainly], ?_⟩
    rw [TokenReader.skipSeparators, hreader.getElem? hfound, List.append_nil]
    rfl
  | cons token rest ih =>
    rw [TokenReader.skipSeparators, hreader.getElem? hfound]
    simp only [List.head?_cons, Option.map_some, TokenSpan.of]
    by_cases hseparator : token.kind.isSeparator = true
    · obtain ⟨gaps, left, rfl, hgaps, hleft, hskip⟩ :=
        ih (before ++ [token]) (by simpa using hfound)
      refine ⟨token :: gaps, left, rfl, by simpa [hseparator] using hgaps, hleft, ?_⟩
      rw [if_pos hseparator]
      simpa [Nat.add_assoc, Nat.add_comm 1] using hskip
    · refine ⟨[], token :: rest, rfl, by simp, ?_, ?_⟩
      · intro other hother
        obtain rfl : token = other := by simpa using hother
        simpa using hseparator
      · rw [if_neg hseparator, List.append_nil]

/-! ## Nodes of rows -/

/-- Line breaks at the end of a row are passed over from behind. -/
theorem Reads.lastSolid (hreader : reader.Reads found) {core breaks : List Token} {last : Token}
    (hlast : last.kind ≠ .newline) (hbreaks : ∀ token ∈ breaks, token.kind = .newline)
    (hfound : found = before ++ (core ++ last :: (breaks ++ rest))) :
    reader.lastSolid before.length (core.length + 1 + breaks.length) =
      pure (before ++ core).length := by
  induction breaks using List.reverseRecOn generalizing rest with
  | nil =>
    have hlookup := hreader.lookup (before ++ core) last rest (by simpa using hfound)
    rw [List.length_append] at hlookup
    rw [List.length_nil, Nat.add_zero, TokenReader.lastSolid, hlookup, pure_bind,
      if_neg (by simpa [TokenSpan.of] using hlast), List.length_append]
  | append_singleton breaks gap ih =>
    have hlookup := hreader.lookup (before ++ (core ++ last :: breaks)) gap rest
      (by simpa using hfound)
    have hindex : (before ++ (core ++ last :: breaks)).length =
        before.length + (core.length + 1 + breaks.length) := by
      simp only [List.length_append, List.length_cons]
      omega
    rw [hindex] at hlookup
    rw [List.length_append, List.length_singleton, ← Nat.add_assoc, TokenReader.lastSolid, hlookup,
      pure_bind, if_pos (by simpa [TokenSpan.of] using hbreaks gap (by simp))]
    exact ih (fun token htoken => hbreaks token (by simp [htoken])) (by simpa using hfound)

/-- The node over a row of tokens. -/
theorem Reads.spanNode (hreader : reader.Reads found) (kind : NodeKind) (role : Option Role)
    (hne : row ≠ []) (hstart : StartsPlainly row) (hfound : found = before ++ (row ++ rest)) :
    ∃ node, nodeOver kind role row = some node ∧
      reader.spanNode kind role before.length (before ++ row).length = pure node := by
  obtain ⟨core, last, breaks, hsplit, hlast, hbreaks, hstop⟩ := stopOf_last hne hstart
  obtain ⟨first, later, rfl⟩ := List.exists_cons_of_ne_nil hne
  have hlength : (before ++ first :: later).length - before.length =
      core.length + 1 + breaks.length := by
    rw [hsplit]
    simp only [List.length_append, List.length_cons]
    omega
  have hfirst : found = before ++ first :: (later ++ rest) := by simpa using hfound
  refine ⟨_, rfl, ?_⟩
  rw [hsplit, List.append_assoc, List.cons_append] at hfound
  rw [TokenReader.spanNode, hreader.lookup before first (later ++ rest) hfirst, pure_bind, hlength,
    hreader.lastSolid hlast hbreaks hfound, pure_bind,
    hreader.lookup (before ++ core) last (breaks ++ rest) (by simpa using hfound), pure_bind, hstop]
  have hline := hreader.lines first (by rw [hfirst]; simp)
  simp only [line, TokenSpan.of, hline]

/-- The node over the header of a block. -/
theorem Reads.headerNode (hreader : reader.Reads found) (hstart : StartsPlainly row)
    (hfound : found = before ++ (row ++ rest)) :
    ∃ header, reader.headerNode before.length (before ++ row).length = pure header ∧
      header.toList = (nodeOver .blockHeader (some .header) row).toList := by
  rw [TokenReader.headerNode, List.length_append]
  by_cases hne : row = []
  · exact ⟨none, if_neg (by simp [hne]), by rw [hne]; rfl⟩
  · obtain ⟨node, hnode, hspan⟩ := hreader.spanNode .blockHeader (some .header) hne hstart hfound
    have := List.length_pos_iff.mpr hne
    rw [List.length_append] at hspan
    refine ⟨some node, ?_, by rw [hnode]⟩
    rw [if_pos (by omega), hspan]
    rfl

/-- What a statement is for is seen by the text of its first token, and whether there is another. -/
theorem Reads.kindOfStatement (hreader : reader.Reads found) {first : Token} {later : List Token}
    (hfound : found = before ++ (first :: later ++ rest)) :
    reader.kindOfStatement (.of first) (first :: later).length =
      (Draft.leafKind (first :: later)).nodeKind := by
  have htext : reader.text (.of first) = first.text := hreader.texts first (by rw [hfound]; simp)
  rw [TokenReader.kindOfStatement, htext]
  unfold Draft.leafKind
  generalize "import".toList = importWord
  generalize "package".toList = packageWord
  cases later with
  | nil => simp [LeafKind.nodeKind]
  | cons second later =>
    simp only [TokenSpan.of, List.length_cons, Bool.and_eq_true, beq_iff_eq,
      show 1 < later.length + 1 + 1 by omega, and_true]
    split_ifs <;> rfl

/-- A statement with no bracket open ends with its node. -/
theorem Reads.endStatement (hreader : reader.Reads found) (hne : row ≠ [])
    (hstart : StartsPlainly row) (hfound : found = before ++ (row ++ rest)) :
    ∃ node, (Item.leaf (Draft.leafKind row) row).node? = some node ∧
      reader.endStatement [] before.length (before ++ row).length =
        pure (node, (before ++ row).length) := by
  obtain ⟨node, hnode, hspan⟩ :=
    hreader.spanNode (Draft.leafKind row).nodeKind none hne hstart hfound
  obtain ⟨first, later, rfl⟩ := List.exists_cons_of_ne_nil hne
  have hdistance : distance before.length (before ++ first :: later).length =
      pure (first :: later).length := by
    rw [List.length_append, distance, if_pos (Nat.le_add_right ..), Nat.add_sub_cancel_left]
  refine ⟨node, by rw [Item.node?, hnode], ?_⟩
  rw [TokenReader.endStatement,
    hreader.lookup before first (later ++ rest) (by simpa using hfound), pure_bind, hdistance,
    pure_bind, hreader.kindOfStatement hfound, hspan, pure_bind]

/-! ## Line breaks -/

/-- Whether a sign is a doubled one is seen by the token before it. The token before a statement is
no sign, so it makes no difference. -/
theorem Reads.isDoubled (hreader : reader.Reads found) (mark : Char) {last : Token}
    (hbefore : ∀ token ∈ before.getLast?, ∀ mark, token.kind ≠ .punct mark)
    (hfound : found = before ++ (row ++ last :: rest)) :
    reader.isDoubled mark last.start ((before ++ row).length + 1) =
      pure (row.getLast?.any fun token =>
        token.kind == .punct mark && token.stop == last.start) := by
  rw [TokenReader.isDoubled]
  rcases List.eq_nil_or_concat' row with rfl | ⟨earlier, previous, rfl⟩
  · rcases List.eq_nil_or_concat' before with rfl | ⟨outer, previous, rfl⟩
    · rfl
    · have hindex : (outer ++ [previous] ++ []).length + 1 - 2 = outer.length := by simp
      rw [if_pos (by simp), hindex, hreader.lookup outer previous (last :: rest)
        (by simpa using hfound), pure_bind]
      have hplain : (previous.kind == .punct mark) = false :=
        beq_eq_false_iff_ne.mpr (hbefore previous (by simp) mark)
      simp only [TokenSpan.of, hplain, Bool.false_and]
      rfl
  · have hindex :
        (before ++ (earlier ++ [previous])).length + 1 - 2 = (before ++ earlier).length := by
      simp only [List.length_append, List.length_singleton]
      omega
    rw [if_pos (by simp; omega), hindex, hreader.lookup (before ++ earlier) previous (last :: rest)
      (by simpa using hfound), pure_bind, List.getLast?_concat]
    rfl

/-- Whether a line ends open is seen by its last two tokens. -/
theorem Reads.lineEndsOpen (hreader : reader.Reads found) {last : Token}
    (hbefore : ∀ token ∈ before.getLast?, ∀ mark, token.kind ≠ .punct mark)
    (hfound : found = before ++ (row ++ last :: rest)) :
    reader.lineEndsOpen ((before ++ row).length + 1) =
      pure (Draft.expectsMore (last :: row.reverse)) := by
  rw [TokenReader.lineEndsOpen, if_pos (Nat.succ_pos _), Nat.add_sub_cancel,
    hreader.lookup (before ++ row) last rest (by simpa using hfound), pure_bind]
  simp only [TokenSpan.of, Draft.expectsMore]
  cases last.kind with
  | punct mark =>
    simp only [hreader.isDoubled mark hbefore hfound, pure_bind]
    generalize ['.', ',', '=', '/', '%', '&', '|', ':'].contains mark = strong
    generalize (mark == '+' || mark == '-') = sign
    rcases List.eq_nil_or_concat' row with rfl | ⟨earlier, previous, rfl⟩
    · cases strong <;> cases sign <;> rfl
    · rw [List.getLast?_concat, List.reverse_append]
      cases strong <;> cases sign <;> rfl
  | _ => rfl

/-- Whether some tokens go on with a statement is seen by the first one that is no line break. -/
theorem find?_eq_goesOn (rest : List Token) :
    (match (rest.map TokenSpan.of).find? (·.kind ≠ .newline) with
      | some next =>
        [.punct '.', .opening .curly, .punct '?', .punct '&', .punct '|'].contains next.kind
      | none => false) = Draft.goesOn rest := by
  induction rest with
  | nil => rfl
  | cons token rest ih =>
    rw [Draft.goesOn, List.map_cons, List.find?_cons, List.dropWhile_cons]
    by_cases hgap : token.kind = .newline
    · simpa [Draft.goesOn, TokenSpan.of, hgap] using ih
    · simp [TokenSpan.of, hgap]

/-- Whether a statement goes on behind a line break. -/
theorem Reads.goesOnBehind (hreader : reader.Reads found) (hne : row ≠ [])
    (hbefore : ∀ token ∈ before.getLast?, ∀ mark, token.kind ≠ .punct mark) {gap : Token}
    (blocks : List OpenBlock) (items : List Item)
    (hfound : found = before ++ (row ++ gap :: rest)) :
    reader.goesOnBehind (before ++ row).length =
      pure ((Draft.mk blocks items row.reverse []).continues rest) := by
  obtain ⟨earlier, last, rfl⟩ := (List.eq_nil_or_concat' row).resolve_left hne
  have hopen := hreader.lineEndsOpen hbefore
    (show found = before ++ (earlier ++ last :: gap :: rest) by simpa using hfound)
  have hplace : (before ++ (earlier ++ [last])).length = (before ++ earlier).length + 1 := by
    simp only [List.length_append, List.length_singleton, Nat.add_assoc]
  have hrest : reader.tokensFromPlace ((before ++ earlier).length + 1 + 1) =
      pure (rest.map TokenSpan.of) := by
    have hsplit : found = (before ++ (earlier ++ [last, gap])) ++ rest := by simpa using hfound
    have hindex : (before ++ earlier).length + 1 + 1 =
        (before ++ (earlier ++ [last, gap])).length := by
      simp only [List.length_append, List.length_cons, List.length_nil, Nat.add_assoc]
    rw [tokensFromPlace, hreader.tokens, hindex, hsplit, if_pos (by simp), ← List.map_drop,
      List.drop_left]
  rw [TokenReader.goesOnBehind, hplace, hopen, pure_bind, hrest, pure_bind, Draft.continues,
    List.reverse_append, List.reverse_singleton, List.singleton_append]
  simp only [List.isEmpty_cons, Bool.not_false, Bool.true_and]
  cases Draft.expectsMore (last :: earlier.reverse) with
  | true => rfl
  | false =>
    rw [if_neg (by decide), Bool.false_or, ← find?_eq_goesOn]
    split <;> rfl

/-! ## Statements and blocks -/

/-- The source is rejected on the line of a token. -/
theorem Reads.reject (hreader : reader.Reads found) {α : Type} (htoken : token ∈ found)
    (cause : ParseCause) :
    (reader.reject (.of token) cause : Walk α) = throw (.rejected token.line cause) := by
  rw [TokenReader.reject, line, TokenSpan.of, hreader.lines token htoken]

/-- A walk over a row of tokens comes to a value and to a place among all of them, or the source is
rejected as its outline is. -/
def Comes {α : Type} (found : List Token) (walk : Walk (α × Nat))
    (result : Except Imbalance (List Item)) (agrees : α → (passed left : List Token) → Prop) :
    Prop :=
  (∃ value passed left, found = passed ++ left ∧ walk = pure (value, passed.length) ∧
    agrees value passed left) ∨
  ∃ imbalance, result = .error imbalance ∧
    walk = throw (.rejected imbalance.token.line imbalance.cause)

/-- No statement starts here, or the token before is no sign. -/
def Fresh (passed left : List Token) : Prop :=
  (∀ token ∈ passed.getLast?, ∀ mark, token.kind ≠ .punct mark) ∨
    ∀ token ∈ left.head?, token.kind.isSeparator = true ∨ ∃ bracket, token.kind = .closing bracket

/-- The token before a statement is no sign, where separators stand before the statement as well as
where none do. -/
theorem Fresh.not_punct_behind {gaps later : List Token}
    (hfresh : Fresh before (gaps ++ token :: later))
    (hgaps : ∀ gap ∈ gaps, gap.kind.isSeparator = true) (hplain : token.kind.isSeparator = false)
    (hcloses : ¬ ∃ bracket, token.kind = .closing bracket) :
    ∀ other ∈ (before ++ gaps).getLast?, ∀ mark, other.kind ≠ .punct mark := by
  intro other hother mark hkind
  rcases List.eq_nil_or_concat' gaps with rfl | ⟨earlier, gap, rfl⟩
  · rw [List.append_nil] at hother
    rcases hfresh with hfresh | hfresh
    · exact hfresh other hother mark hkind
    · rcases hfresh token rfl with hseparator | hclosing
      · simp [hplain] at hseparator
      · exact hcloses hclosing
  · obtain rfl : gap = other := by simpa [← List.append_assoc] using hother
    simpa [hkind] using hgaps gap (by simp)

/-- The brackets that are open in a statement are opening ones of the script. -/
def AreOpen (found brackets : List Token) : Prop :=
  ∀ token ∈ brackets, token ∈ found ∧ ∃ bracket, token.kind = .opening bracket

/-- Behind a statement or block there is one more item in the outline. -/
def OneMore (first : Nat) (blocks : List OpenBlock) (items : List Item)
    (result : Except Imbalance (List Item)) (node : Node) (passed left : List Token) : Prop :=
  first < passed.length ∧ Fresh passed left ∧ ∃ item : Item, item.node? = some node ∧
    result = (Draft.mk blocks (item :: items) [] []).outline left

/-- The statement that `rest` goes on with comes to one more item of the outline. -/
def StatementComes (reader : TokenReader) (found rest : List Token) : Prop :=
  ∀ (before row : List Token) (blocks : List OpenBlock) (items : List Item) (brackets : List Token),
    found = before ++ (row ++ rest) →
    (∀ token ∈ before.getLast?, ∀ mark, token.kind ≠ .punct mark) →
    (row = [] → ∃ token later, rest = token :: later ∧ token.kind.isSeparator = false ∧
      ∀ bracket, token.kind ≠ .closing bracket) →
    StartsPlainly row → AreOpen found brackets →
    Comes found
      (reader.statement (brackets.map TokenSpan.of) before.length (before ++ row).length)
      ((Draft.mk blocks items row.reverse brackets).outline rest)
      (OneMore before.length blocks items
        ((Draft.mk blocks items row.reverse brackets).outline rest))

/-- The statements that `rest` starts with come to more items of the outline, and to the end or to
the brace that closes the block around them. -/
def StatementsCome (reader : TokenReader) (found rest : List Token) : Prop :=
  ∀ (before : List Token) (blocks : List OpenBlock) (items : List Item) (nodes : List Node),
    found = before ++ rest → Fresh before rest →
    (∀ block ∈ blocks.head?, block.opening ∈ found) →
    Comes found
      (reader.statements (blocks.head?.map fun block => .of block.opening) nodes before.length)
      ((Draft.mk blocks items [] []).outline rest)
      fun made passed left => before.length ≤ passed.length ∧
        (∃ more : List Item, made = nodes ++ nodesOf more ∧
          (Draft.mk blocks items [] []).outline rest =
            (Draft.mk blocks (more.reverse ++ items) [] []).outline left) ∧
        (blocks = [] → left = []) ∧
        (blocks ≠ [] → ∃ closing later, left = closing :: later ∧ closing.kind = .closing .curly)

/-- A token that stays in its draft leads to the next draft. -/
theorem outline_of_moves {draft next : Draft} (hmove : draft.Moves token rest next) :
    draft.outline (token :: rest) = next.outline rest := by
  rw [Draft.outline, Draft.step_eq_ok_iff.mpr hmove]

/-- Outside of brackets it makes no difference whether a statement is finished before the token that
ends it or by it. -/
theorem outline_finish {draft : Draft} (houtside : draft.brackets = [])
    (hrest : ∀ token later, rest = token :: later → token.kind = .semicolon ∨
      (token.kind = .newline ∧ draft.continues later = false) ∨
        ∃ bracket, token.kind = .closing bracket) :
    draft.outline rest = draft.finish.outline rest := by
  have htwice := Draft.finish_of_statement_nil draft.finish_statement
  cases rest with
  | nil =>
    rw [Draft.outline, Draft.outline, Draft.close, Draft.close, htwice, Draft.finish_brackets,
      Draft.finish_blocks]
  | cons token later =>
    have hfinished : draft.finish.continues later = false := by simp [Draft.continues]
    have hsame : draft.step token later = draft.finish.step token later := by
      rcases hrest token later rfl with hkind | ⟨hkind, hends⟩ | ⟨bracket, hkind⟩
      · simp [Draft.step, hkind, houtside, htwice]
      · rw [Draft.step_newline hkind houtside, Draft.step_newline hkind (by simp [houtside]), hends,
          hfinished, htwice]
        rfl
      · simp [Draft.step, hkind, houtside, htwice]
    rw [Draft.outline, Draft.outline, hsame]

/-- A statement that no bracket is open in ends where the outline finishes it. -/
theorem Reads.ends (hreader : reader.Reads found) (blocks : List OpenBlock) (items : List Item)
    (hne : row ≠ []) (hstart : StartsPlainly row) (hfound : found = before ++ (row ++ rest))
    (hrest : ∀ token later, rest = token :: later → token.kind = .semicolon ∨
      (token.kind = .newline ∧
        (Draft.mk blocks items row.reverse []).continues later = false) ∨
          ∃ bracket, token.kind = .closing bracket) :
    Comes found (reader.endStatement [] before.length (before ++ row).length)
      ((Draft.mk blocks items row.reverse []).outline rest)
      (OneMore before.length blocks items
        ((Draft.mk blocks items row.reverse []).outline rest)) := by
  obtain ⟨node, hnode, hwalk⟩ := hreader.endStatement hne hstart hfound
  have hfinish : (Draft.mk blocks items row.reverse []).finish =
      Draft.mk blocks (.leaf (Draft.leafKind row) row :: items) [] [] := by
    obtain ⟨earlier, last, rfl⟩ := (List.eq_nil_or_concat' row).resolve_left hne
    simp [Draft.finish]
  have hbehind : Fresh (before ++ row) rest := by
    refine Or.inr fun token htoken => ?_
    obtain ⟨later, hlater⟩ := List.head?_eq_some_iff.mp htoken
    rcases hrest token later hlater with hkind | ⟨hkind, -⟩ | hclosing
    · exact Or.inl (by rw [hkind]; rfl)
    · exact Or.inl (by rw [hkind]; rfl)
    · exact Or.inr hclosing
  refine Or.inl ⟨node, before ++ row, rest, by rw [hfound, List.append_assoc], hwalk, ?_, hbehind,
    _, hnode, by rw [outline_finish rfl hrest, hfinish]⟩
  have := List.length_pos_iff.mpr hne
  rw [List.length_append]
  omega

/-- A token that joins the statement is passed over. -/
theorem StatementComes.forward {blocks : List OpenBlock} {items : List Item}
    {brackets : List Token} (hrest : StatementComes reader found rest) (opened : List Token)
    (hfound : found = before ++ (row ++ token :: rest))
    (hbefore : ∀ token ∈ before.getLast?, ∀ mark, token.kind ≠ .punct mark)
    (hstart : StartsPlainly (row ++ [token])) (hopened : AreOpen found opened)
    (hmove : (Draft.mk blocks items row.reverse brackets).Moves token rest
      ⟨blocks, items, token :: row.reverse, opened⟩) :
    Comes found
      (reader.statement (opened.map TokenSpan.of) before.length ((before ++ row).length + 1))
      ((Draft.mk blocks items row.reverse brackets).outline (token :: rest))
      (OneMore before.length blocks items
        ((Draft.mk blocks items row.reverse brackets).outline (token :: rest))) := by
  have hcomes := hrest before (row ++ [token]) blocks items opened (by simpa using hfound) hbefore
    (by simp) hstart hopened
  rw [outline_of_moves hmove]
  have hplace : (before ++ (row ++ [token])).length = (before ++ row).length + 1 := by
    rw [← List.append_assoc, List.length_append, List.length_singleton]
  rwa [List.reverse_append, List.reverse_singleton, List.singleton_append, hplace] at hcomes

/-- A block comes to one more item of the outline, if the statements inside come to theirs. -/
theorem Reads.block (hreader : reader.Reads found) (blocks : List OpenBlock) (items : List Item)
    (hrest : StatementsCome reader found rest) (hbrace : token.kind = .opening .curly)
    (hstart : StartsPlainly row) (hfound : found = before ++ (row ++ token :: rest)) :
    Comes found (reader.block before.length (before ++ row).length)
      ((Draft.mk blocks items row.reverse []).outline (token :: rest))
      (OneMore before.length blocks items
        ((Draft.mk blocks items row.reverse []).outline (token :: rest))) := by
  obtain ⟨head, tail, hrow, hfirst⟩ : ∃ head tail, row ++ token :: rest = head :: tail ∧
      row.head?.getD token = head := by
    cases row with
    | nil => exact ⟨token, rest, rfl, rfl⟩
    | cons head tail => exact ⟨head, tail ++ token :: rest, rfl, rfl⟩
  obtain ⟨header, hheader, hlist⟩ := hreader.headerNode hstart hfound
  have hmove : (Draft.mk blocks items row.reverse []).Moves token rest
      ⟨⟨row, token, items⟩ :: blocks, [], [], []⟩ := by
    have henters : (Draft.mk blocks items row.reverse []).Moves token rest
        ⟨⟨row.reverse.reverse, token, items⟩ :: blocks, [], [], []⟩ := .enters hbrace rfl
    rwa [List.reverse_reverse] at henters
  have hinner := hrest (before ++ row ++ [token]) (⟨row, token, items⟩ :: blocks) [] []
    (by simpa using hfound) (Or.inl (by simp [hbrace])) (by simp [hfound])
  rw [outline_of_moves hmove, TokenReader.block,
    hreader.lookup (before ++ row) token rest (by simpa using hfound), pure_bind, hheader,
    pure_bind]
  rw [show (before ++ row ++ [token]).length = (before ++ row).length + 1 by
    rw [List.length_append, List.length_singleton]] at hinner
  simp only [List.head?_cons, Option.map_some] at hinner
  rcases hinner with
    ⟨body, passed, left, hsplit, hwalk, hlonger, ⟨more, rfl, houtline⟩, -, hend⟩ |
    ⟨imbalance, hwrong, hwalk⟩
  · obtain ⟨closing, later, rfl, hclosing⟩ := hend (List.cons_ne_nil _ _)
    have hlast : found = (passed ++ [closing]) ++ later := by simpa using hsplit
    rw [hwalk, pure_bind]
    simp only
    rw [hreader.lookup passed closing later hsplit, pure_bind,
      hreader.lookup before head tail (by rw [hfound, hrow]), pure_bind]
    refine Or.inl ⟨_, passed ++ [closing], later, hlast,
      by rw [List.length_append, List.length_singleton], ?_, Or.inl (by simp [hclosing]),
      .block row token more closing, ?_, ?_⟩
    · simp only [List.length_append, List.length_singleton] at hlonger ⊢
      omega
    · have hline := hreader.lines head (by rw [hfound, hrow]; simp)
      rw [Item.node?, hfirst, hlist]
      simp only [line, TokenSpan.of, hline, List.nil_append]
    · rw [houtline, List.append_nil, outline_of_moves (.leaves _ blocks hclosing rfl rfl)]
      simp [Draft.finish]
  · refine Or.inr ⟨imbalance, hwrong, ?_⟩
    rw [hwalk]
    rfl

/-- Where the tokens run out, a statement ends, or is rejected for the innermost bracket that is open
in it. -/
theorem Reads.statementComes_nil (hreader : reader.Reads found) :
    StatementComes reader found [] := by
  intro before row blocks items brackets hfound _ hfirst hstart hopened
  have hstands := hreader.getElem? (hfound.trans (List.append_assoc before row []).symm)
  have hne : row ≠ [] := by
    rintro rfl
    simpa using hfirst rfl
  rw [TokenReader.statement, hstands]
  simp only [List.head?_nil, Option.map_none]
  cases brackets with
  | nil => exact hreader.ends blocks items hne hstart hfound (by simp)
  | cons unclosed outer =>
    obtain ⟨hmem, bracket, hkind⟩ := hopened unclosed (List.mem_cons_self ..)
    have hspan : (TokenSpan.of unclosed).kind = .opening bracket := hkind
    refine Or.inr ⟨⟨.unclosed bracket, unclosed⟩, by simp [Draft.outline, Draft.close, hkind], ?_⟩
    rw [List.map_cons, TokenReader.endStatement]
    simp only [hspan]
    exact hreader.reject hmem _

/-- A statement comes to its item, if what follows its next token comes to its own. -/
theorem Reads.statementComes_of (hreader : reader.Reads found)
    (hstatement : ∀ token later, rest = token :: later → StatementComes reader found later)
    (hstatements : ∀ token later, rest = token :: later → StatementsCome reader found later) :
    StatementComes reader found rest := by
  cases rest with
  | nil => exact hreader.statementComes_nil
  | cons token later =>
    intro before row blocks items brackets hfound hbefore hfirst hstart hopened
    have hstands :=
      hreader.getElem? (hfound.trans (List.append_assoc before row (token :: later)).symm)
    have hmem : token ∈ found := by simp [hfound]
    have hlater := hstatement token later rfl
    have hgrows : StartsPlainly (row ++ [token]) := by
      cases row with
      | nil =>
        obtain ⟨_, _, heq, hplain, -⟩ := hfirst rfl
        cases heq
        simpa [StartsPlainly] using hplain
      | cons head tail => exact hstart
    have hnonempty : token.kind.isSeparator = true ∨ (∃ bracket, token.kind = .closing bracket) →
        row ≠ [] := by
      rintro hends rfl
      obtain ⟨_, _, heq, hplain, hcloses⟩ := hfirst rfl
      cases heq
      rcases hends with hseparator | ⟨bracket, hkind⟩
      · simp [hplain] at hseparator
      · exact hcloses bracket hkind
    have hjoins (hplain : token.kind.isBracket = false)
        (hstays : token.kind.isSeparator = true → brackets = [] → token.kind = .newline ∧
          (Draft.mk blocks items row.reverse brackets).continues later = true) :=
      hlater.forward brackets hfound hbefore hgrows hopened (.joins hplain hstays)
    have hspan : (TokenSpan.of token).kind = token.kind := rfl
    rw [TokenReader.statement, hstands]
    simp only [List.head?_cons, Option.map_some]
    cases hkind : token.kind with
    | word | string | punct =>
      simp only [hspan, hkind]
      exact hjoins (by simp [hkind]) (by simp [hkind])
    | semicolon =>
      simp only [hspan, hkind, List.map_eq_nil_iff]
      split_ifs with hinside
      · subst hinside
        exact hreader.ends blocks items (hnonempty (Or.inl (by rw [hkind]; rfl))) hstart hfound
          (by simp [hkind])
      · exact hjoins (by simp [hkind]) fun _ hnil => absurd hnil hinside
    | newline =>
      simp only [hspan, hkind, List.map_eq_nil_iff]
      split_ifs with hinside
      · subst hinside
        have hne := hnonempty (Or.inl (by rw [hkind]; rfl))
        rw [hreader.goesOnBehind hne hbefore blocks items hfound, pure_bind]
        split_ifs with hgoes
        · exact hjoins (by simp [hkind]) fun _ _ => ⟨hkind, hgoes⟩
        · exact hreader.ends blocks items hne hstart hfound fun other rest heq => by
            cases heq
            exact Or.inr (Or.inl ⟨hkind, by simpa using hgoes⟩)
      · exact hjoins (by simp [hkind]) fun _ hnil => absurd hnil hinside
    | opening bracket =>
      simp only [hspan, hkind, List.map_eq_nil_iff]
      split_ifs with hbrace
      · obtain ⟨rfl, rfl⟩ := hbrace
        exact hreader.block blocks items (hstatements token later rfl) hkind hstart hfound
      · refine hlater.forward (token :: brackets) hfound hbefore hgrows ?_
          (.opens bracket hkind fun hcurly hnil => hbrace ⟨hcurly, hnil⟩)
        intro other hother
        rcases List.mem_cons.mp hother with rfl | hother
        · exact ⟨hmem, bracket, hkind⟩
        · exact hopened other hother
    | closing bracket =>
      simp only [hspan, hkind]
      cases brackets with
      | nil =>
        exact hreader.ends blocks items (hnonempty (Or.inr ⟨bracket, hkind⟩)) hstart hfound
          (by simp [hkind])
      | cons innermost outer =>
        obtain ⟨-, expected, hinnermost⟩ := hopened innermost (List.mem_cons_self ..)
        have hinner : (TokenSpan.of innermost).kind = .opening expected := hinnermost
        simp only [List.map_cons, hinner]
        split_ifs with hmatch
        · subst hmatch
          exact hlater.forward outer hfound hbefore hgrows
            (fun other hother => hopened other (List.mem_cons_of_mem _ hother))
            (.closes expected innermost outer hkind rfl hinnermost)
        · refine Or.inr ⟨⟨.mismatched bracket expected, token⟩, ?_, hreader.reject hmem _⟩
          rw [Draft.outline, Draft.step]
          simp [hkind, hinnermost, hmatch]

/-- Statements come to their items, if each of them does. -/
theorem Reads.statementsCome_of (hreader : reader.Reads found)
    (hstatement : ∀ left : List Token, left.length ≤ rest.length → StatementComes reader found left)
    (hstatements : ∀ left : List Token, left.length < rest.length →
      StatementsCome reader found left) :
    StatementsCome reader found rest := by
  intro before blocks items nodes hfound hfresh hopening
  obtain ⟨gaps, left, rfl, hgaps, hleft, hskip⟩ := hreader.skipSeparators before hfound
  have hsplit : found = (before ++ gaps) ++ left := by simpa using hfound
  have hgapped : (Draft.mk blocks items [] []).outline (gaps ++ left) =
      (Draft.mk blocks items [] []).outline left := Draft.outline_separators_nil hgaps rfl rfl
  have hstands := hreader.getElem? hsplit
  rw [TokenReader.statements, hskip, pure_bind, hstands, hgapped]
  cases left with
  | nil =>
    simp only [List.head?_nil, Option.map_none]
    cases blocks with
    | nil =>
      exact Or.inl ⟨nodes, before ++ gaps, [], hsplit, rfl, by simp, ⟨[], by simp [nodesOf], rfl⟩,
        fun _ => rfl, fun hne => absurd rfl hne⟩
    | cons around outer =>
      exact Or.inr ⟨⟨.unclosed .curly, around.opening⟩, rfl, hreader.reject (hopening around rfl) _⟩
  | cons token later =>
    have hmem : token ∈ found := by simp [hsplit]
    have hspan : (TokenSpan.of token).kind = token.kind := rfl
    simp only [List.head?_cons, Option.map_some]
    by_cases hcloses : ∃ bracket, token.kind = .closing bracket
    · obtain ⟨bracket, hkind⟩ := hcloses
      simp only [hspan, hkind]
      split_ifs with hends
      · obtain ⟨rfl, hinside⟩ := hends
        refine Or.inl ⟨nodes, before ++ gaps, token :: later, hsplit, rfl, by simp,
          ⟨[], by simp [nodesOf], rfl⟩, ?_, fun _ => ⟨token, later, rfl, hkind⟩⟩
        rintro rfl
        simp at hinside
      · refine Or.inr ⟨⟨.unexpected bracket, token⟩, ?_, hreader.reject hmem _⟩
        rw [Draft.outline, Draft.step]
        simp only [hkind, Draft.finish]
        cases blocks <;> cases bracket <;> simp_all
    · have hplain : token.kind.isSeparator = false := hleft token rfl
      have hbehind := hfresh.not_punct_behind hgaps hplain hcloses
      have hfirst := hstatement (token :: later) (by simp) (before ++ gaps) [] blocks items []
        (by simpa using hsplit) hbehind (fun _ => ⟨token, later, rfl, hplain, fun bracket hkind =>
          hcloses ⟨bracket, hkind⟩⟩) (by simp [StartsPlainly]) (by simp [AreOpen])
      rw [List.append_nil, List.map_nil, List.reverse_nil] at hfirst
      split
      · rename_i bracket hkind
        exact absurd ⟨bracket, hkind⟩ hcloses
      rcases hfirst with
        ⟨node, passed, left, hleft, hnode, hlonger, hfresh, item, hitem, houtline⟩ |
        ⟨imbalance, hwrong, hreject⟩
      · have hrest := hstatements left (by
          have := congrArg List.length (hsplit.symm.trans hleft)
          simp only [List.length_append] at this hlonger ⊢
          omega) passed blocks (item :: items) (nodes ++ [node]) hleft hfresh hopening
        rw [houtline, hnode, pure_bind]
        rcases hrest with
          ⟨made, passed, left, hleft, hmade, hlongest, ⟨more, rfl, hmore⟩, hends⟩ | hwrong
        · refine Or.inl ⟨_, passed, left, hleft, hmade, ?_, ⟨item :: more, ?_, ?_⟩, hends⟩
          · simp only [List.length_append] at hlonger
            omega
          · simp [nodesOf, hitem]
          · rw [hmore]
            simp
        · exact Or.inr hwrong
      · refine Or.inr ⟨imbalance, hwrong, ?_⟩
        rw [hreject]
        rfl

/-- Every statement comes to its item, and all statements come to theirs. -/
theorem Reads.come (hreader : reader.Reads found) (length : Nat) :
    ∀ rest : List Token, rest.length < length →
      StatementComes reader found rest ∧ StatementsCome reader found rest := by
  induction length with
  | zero => simp
  | succ length ih =>
    have hstatement : ∀ rest : List Token, rest.length ≤ length →
        StatementComes reader found rest := fun rest hrest =>
      hreader.statementComes_of
        (fun token later hlater => (ih later (by simp [hlater] at hrest; omega)).1)
        (fun token later hlater => (ih later (by simp [hlater] at hrest; omega)).2)
    exact fun rest hrest => ⟨hstatement rest (by omega),
      hreader.statementsCome_of (fun left hleft => hstatement left (by omega))
        fun left hleft => (ih left (by omega)).2⟩

/-- The tree that is built is that of the outline of the tokens, and the script is rejected for the
bracket that the outline blames. -/
theorem Reads.build (hreader : reader.Reads found) :
    reader.build =
      match outline found with
      | .ok items =>
        pure (.mk .script none 0 (Text.byteLength reader.source) 1 (nodesOf items))
      | .error imbalance => throw (.rejected imbalance.token.line imbalance.cause) := by
  have hall := (hreader.come _ found (Nat.lt_succ_self _)).2 [] [] [] [] rfl (Or.inl (by simp))
    (by simp)
  change Comes found (reader.statements none [] 0) (Draft.empty.outline found) _ at hall
  rw [TokenReader.build, outline]
  rcases hall with ⟨nodes, passed, left, -, hwalk, -, ⟨more, rfl, houtline⟩, hend, -⟩ |
    ⟨imbalance, hwrong, hwalk⟩
  · obtain rfl := hend rfl
    have hitems : Draft.empty.outline found = .ok more := by
      refine houtline.trans ?_
      rw [Draft.outline, Draft.close]
      simp [Draft.finish]
    rw [hwalk, hitems]
    rfl
  · rw [hwalk, hwrong]
    rfl

end TokenReader

end CorpusFacts.Script
