import CorpusFacts.Proofs.Script.Balance
import CorpusFacts.Proofs.Script.Coverage
import CorpusFacts.Proofs.Script.Layout
import CorpusFacts.Proofs.Script.LineBreaks
import CorpusFacts.Syntax.Parse

/-!
# Scripts of statements

A script that is written as some statements one after the other, with blanks, line breaks and
comments between them, has a tree of exactly these statements: one node for each, with its text, in
their order. Two statements need a line break or a semicolon between them.
-/

namespace CorpusFacts.Script

variable {dialect : Dialect}

/-- The kinds of the tokens among some pieces. -/
def kindsOf (pieces : List Piece) : List TokenKind :=
  pieces.filterMap fun piece =>
    match piece.kind with
    | .token kind => some kind
    | _ => none

@[simp] theorem kindsOf_nil : kindsOf [] = [] := rfl

@[simp] theorem kindsOf_token (kind : TokenKind) (text : List Char) (pieces : List Piece) :
    kindsOf (⟨.token kind, text⟩ :: pieces) = kind :: kindsOf pieces := rfl

@[simp] theorem kindsOf_append (first second : List Piece) :
    kindsOf (first ++ second) = kindsOf first ++ kindsOf second :=
  List.filterMap_append

@[simp] theorem kindsOf_blankPieces (blanks : List Char) : kindsOf (blankPieces blanks) = [] := by
  induction blanks with
  | nil => rfl
  | cons c blanks ih => exact ih

/-- The tokens of a row of pieces have the kinds of these pieces. -/
theorem map_kind_tokensFrom (start line : Nat) (pieces : List Piece) :
    (tokensFrom start line pieces).map (·.kind) = kindsOf pieces := by
  induction pieces generalizing start line with
  | nil => rfl
  | cons piece pieces ih =>
    obtain ⟨kind, text⟩ := piece
    cases kind with
    | token kind => exact congrArg (kind :: ·) (ih _ _)
    | _ => exact ih _ _

/-! ## Tokens that stay in a statement -/

/-- Kinds of tokens that all join one statement: none of them is a separator or a brace, and
brackets match. -/
inductive Stays : List TokenKind → Prop
  /-- No token. -/
  | nil : Stays []
  /-- A token that is no bracket. -/
  | plain {kind : TokenKind} {kinds : List TokenKind} (hbracket : kind.isBracket = false)
      (hseparator : kind.isSeparator = false) (hrest : Stays kinds) : Stays (kind :: kinds)
  /-- Two brackets with tokens between them. -/
  | group {bracket : Bracket} {inner kinds : List TokenKind} (hcurly : bracket ≠ .curly)
      (hinner : Stays inner) (hrest : Stays kinds) :
      Stays (.opening bracket :: (inner ++ .closing bracket :: kinds))

/-- Words, literals and marks stay in a statement. -/
theorem Stays.of_plain {kinds : List TokenKind}
    (h : ∀ kind ∈ kinds, kind.isBracket = false ∧ kind.isSeparator = false) : Stays kinds := by
  induction kinds with
  | nil => exact .nil
  | cons kind kinds ih =>
    obtain ⟨⟨hbracket, hseparator⟩, hrest⟩ := List.forall_mem_cons.mp h
    exact .plain hbracket hseparator (ih hrest)

/-- What a statement is for is told by its first word, if another token follows. -/
theorem leafKind_tokensFrom {later : List Piece} (hlater : kindsOf later ≠ []) (word : List Char)
    (start line : Nat) :
    Draft.leafKind (tokensFrom start line (⟨.token .word, word⟩ :: later)) =
      if word = "import".toList then .importDirective
      else if word = "package".toList then .packageDirective
      else .statement := by
  change Draft.leafKind (⟨.word, word, start, line⟩ :: tokensFrom _ _ later) = _
  generalize start + Text.byteLength word = next
  generalize line + Text.newlines word = row
  rw [← map_kind_tokensFrom next row, ne_eq, List.map_eq_nil_iff] at hlater
  obtain ⟨second, others, htokens⟩ := List.exists_cons_of_ne_nil hlater
  simp only [htokens, Draft.leafKind, beq_self_eq_true, Bool.true_and, beq_iff_eq]

namespace Draft

/-- Tokens that stay in a statement join the statement at hand. -/
theorem outline_stays {kinds : List TokenKind} (h : Stays kinds) {row : List Token}
    (hrow : row.map (·.kind) = kinds) (draft : Draft) (rest : List Token) :
    draft.outline (row ++ rest) =
      ({ draft with statement := row.reverse ++ draft.statement } : Draft).outline rest := by
  induction h generalizing row draft rest with
  | nil =>
    obtain rfl := List.map_eq_nil_iff.mp hrow
    rfl
  | plain hbracket hseparator _ ih =>
    obtain ⟨token, row, rfl, rfl, hrest⟩ := List.map_eq_cons_iff.mp hrow
    have hstep : draft.step token (row ++ rest) = .ok (draft.take token) :=
      step_eq_ok_iff.mpr (.joins hbracket fun hsep => by simp [hseparator] at hsep)
    rw [List.cons_append, outline, hstep]
    simpa [take] using ih hrest (draft.take token) rest
  | @group bracket inner kinds hcurly _ _ ihinner ihrest =>
    obtain ⟨first, row, rfl, hfirst, hrow⟩ := List.map_eq_cons_iff.mp hrow
    obtain ⟨within, row, rfl, hwithin, hrow⟩ := List.map_eq_append_iff.mp hrow
    obtain ⟨last, row, rfl, hlast, hrow⟩ := List.map_eq_cons_iff.mp hrow
    -- Between the brackets the first one is open, so the last one closes it.
    let inside : Draft := { draft.take first with brackets := first :: draft.brackets }
    let filled : Draft := { inside with statement := within.reverse ++ inside.statement }
    have hopens : draft.step first (within ++ last :: row ++ rest) = .ok inside :=
      step_eq_ok_iff.mpr (.opens bracket hfirst fun hb => absurd hb hcurly)
    have hcloses : filled.step last (row ++ rest) =
        .ok { filled.take last with brackets := draft.brackets } :=
      step_eq_ok_iff.mpr (.closes bracket first draft.brackets hlast rfl hfirst)
    have hrun := ihinner hwithin inside (last :: row ++ rest)
    rw [List.cons_append, outline, hopens]
    rw [← List.append_assoc] at hrun
    simp only [hrun]
    rw [List.cons_append, outline, hcloses]
    simpa [take, inside, filled] using
      ihrest hrow { filled.take last with brackets := draft.brackets } rest

/-- Tokens at hand are finished to the statement that they are. -/
theorem finish_items {row : List Token} (hne : row ≠ []) (items : List Item) :
    (Draft.mk [] items row.reverse []).finish.items = .leaf (leafKind row) row :: items := by
  unfold finish
  split
  · rename_i hnil
    exact absurd (List.reverse_eq_nil_iff.mp hnil) hne
  · rename_i last earlier hrow
    rw [← hrow, List.reverse_reverse]

/-- Separators do not go on with the statement before them, unless what follows does. -/
theorem goesOn_separators_append {row rest : List Token}
    (hrow : ∀ token ∈ row, token.kind.isSeparator = true) (hrest : goesOn rest = false) :
    goesOn (row ++ rest) = false := by
  induction row with
  | nil => exact hrest
  | cons token row ih =>
    obtain ⟨htoken, hrow⟩ := List.forall_mem_cons.mp hrow
    rw [List.cons_append, goesOn_cons]
    rcases TokenKind.isSeparator_eq_true_iff.mp htoken with hkind | hkind
    · rw [if_pos hkind]
      exact ih hrow
    · rw [if_neg (by simp [hkind]), hkind]
      rfl

/-- Separators without a statement before them change nothing. -/
theorem outline_separators_nil {draft : Draft} {row rest : List Token}
    (hrow : ∀ token ∈ row, token.kind.isSeparator = true) (hstatement : draft.statement = [])
    (houtside : draft.brackets = []) : draft.outline (row ++ rest) = draft.outline rest := by
  induction row with
  | nil => rfl
  | cons token row ih =>
    obtain ⟨htoken, hrow⟩ := List.forall_mem_cons.mp hrow
    have hstep : draft.step token (row ++ rest) = .ok draft.finish :=
      step_eq_ok_iff.mpr (.separates htoken houtside fun _ => by simp [continues, hstatement])
    rw [finish_of_statement_nil hstatement] at hstep
    rw [List.cons_append, outline, hstep]
    exact ih hrow

/-- Separators finish the statement before them, if neither it nor what follows goes on. -/
theorem outline_separators_finish {draft : Draft} {row rest : List Token} (hne : row ≠ [])
    (hrow : ∀ token ∈ row, token.kind.isSeparator = true) (houtside : draft.brackets = [])
    (hmore : expectsMore draft.statement = false) (hrest : goesOn rest = false) :
    draft.outline (row ++ rest) = draft.finish.outline rest := by
  obtain ⟨token, row, rfl⟩ := List.exists_cons_of_ne_nil hne
  obtain ⟨htoken, hrow⟩ := List.forall_mem_cons.mp hrow
  have hstep : draft.step token (row ++ rest) = .ok draft.finish :=
    step_eq_ok_iff.mpr (.separates htoken houtside fun _ => by
      simp [continues, hmore, goesOn_separators_append hrow hrest])
  rw [List.cons_append, outline, hstep]
  exact outline_separators_nil hrow (by simp) (by simpa using houtside)

/-- Separators at the end finish the last statement, if it does not go on. -/
theorem outline_separators_end {items : List Item} {pending row : List Token}
    (hrow : ∀ token ∈ row, token.kind.isSeparator = true) (hmore : expectsMore pending = false) :
    Draft.outline ⟨[], items, pending, []⟩ row =
      .ok (Draft.mk [] items pending []).finish.items.reverse := by
  have hclose : ∀ draft : Draft, draft.blocks = [] → draft.brackets = [] →
      draft.outline [] = .ok draft.finish.items.reverse :=
    fun draft hblocks hbrackets => close_eq_ok_iff.mpr ⟨hbrackets, hblocks, rfl⟩
  by_cases hne : row = []
  · rw [hne]
    exact hclose _ rfl rfl
  · rw [← List.append_nil row, outline_separators_finish hne hrow rfl hmore rfl,
      hclose _ (by simp) (by simp), finish_of_statement_nil (by simp)]

end Draft

/-! ## Statements -/

/-- The tokens of a layout are separators. -/
theorem IsLayout.isSeparator {separates : Bool} {gaps : List Piece} (h : IsLayout separates gaps)
    (start line : Nat) : ∀ token ∈ tokensFrom start line gaps, token.kind.isSeparator = true := by
  intro token htoken
  obtain ⟨earlier, later, hsplit⟩ := List.append_of_mem htoken
  obtain ⟨before, after, rfl, -⟩ := tokensFrom_split hsplit
  exact h.plain ⟨.token token.kind, token.text⟩ (by simp) token.kind rfl

/-- A layout that separates has a token. -/
theorem IsLayout.tokens_ne_nil {gaps : List Piece} (h : IsLayout true gaps) (start line : Nat) :
    tokensFrom start line gaps ≠ [] := by
  obtain ⟨⟨_, text⟩, hgap, kind, rfl⟩ := h.separates rfl
  obtain ⟨before, after, rfl⟩ := List.append_of_mem hgap
  exact List.ne_nil_of_mem (mem_tokensFrom start line before after kind text)

/-- A text is that of one statement: its pieces, which start with a word, are read as such and stay
in a statement, and their last token does not ask for more. -/
structure IsStatement (dialect : Dialect) (kind : LeafKind) (text : List Char) (row : List Piece) :
    Prop where
  /-- The pieces make up the text. -/
  text : textOf row = text
  /-- The first piece is a word that starts with an ASCII letter or digit. -/
  starts : ∃ c word later, row = ⟨.token .word, c :: word⟩ :: later ∧
    Text.isAsciiAlphanumeric c = true
  /-- The last piece is a token behind which a line ends. -/
  ends : ∃ front last text, row = front ++ [⟨.token last, text⟩] ∧ last.isSeparator = false ∧
    ∀ mark, last = .punct mark → mark = '*'
  /-- The tokens stay in one statement. -/
  stays : Stays (kindsOf row)
  /-- They are read as such in front of a layout. -/
  reads : ∀ {tail}, (∀ c ∈ (textOf tail).head?, startsLayout c = true) →
    ReadsAlways dialect tail → ReadsAlways dialect (row ++ tail)
  /-- What the statement is for. -/
  leaf : ∀ start line, Draft.leafKind (tokensFrom start line row) = kind

/-- A node is that of a statement in a source. -/
structure IsNodeOf (source : List Char) (kind : LeafKind) (text : List Char) (node : Node) :
    Prop where
  /-- It has the kind of the statement. -/
  kind : node.kind = kind.nodeKind
  /-- It has no nodes below it. -/
  children : node.children = []
  /-- It covers the text of the statement. -/
  text : sliceBytes source node.start node.stop = text

namespace IsStatement

variable {kind : LeafKind} {text : List Char} {row : List Piece}

/-- A statement starts with an ASCII letter or digit. -/
theorem head (h : IsStatement dialect kind text row) :
    ∀ c ∈ text.head?, Text.isAsciiAlphanumeric c = true := by
  obtain ⟨d, word, later, rfl, hd⟩ := h.starts
  intro c hc
  rw [← h.text] at hc
  obtain rfl : d = c := Option.some.inj hc
  exact hd

/-- A statement is not empty. -/
theorem ne_nil (h : IsStatement dialect kind text row) : text ≠ [] := by
  obtain ⟨d, word, later, rfl, -⟩ := h.starts
  rw [← h.text]
  exact List.cons_ne_nil _ _

/-- A statement does not go on with the one before it. -/
theorem goesOn (h : IsStatement dialect kind text row) (start line : Nat) (rest : List Token) :
    Draft.goesOn (tokensFrom start line row ++ rest) = false := by
  obtain ⟨c, word, later, rfl, -⟩ := h.starts
  rfl

/-- A statement does not ask for more behind it. -/
theorem expectsMore (h : IsStatement dialect kind text row) (start line : Nat) :
    Draft.expectsMore (tokensFrom start line row).reverse = false := by
  obtain ⟨front, last, text, rfl, -, hmark⟩ := h.ends
  rw [tokensFrom_append, List.reverse_append]
  cases last with
  | punct mark =>
    obtain rfl := hmark mark rfl
    rfl
  | _ => rfl

/-- A statement has a token. -/
theorem tokens_ne_nil (h : IsStatement dialect kind text row) (start line : Nat) :
    tokensFrom start line row ≠ [] := by
  obtain ⟨c, word, later, rfl, -⟩ := h.starts
  exact List.cons_ne_nil _ _

/-- The node over the tokens of a statement is that of the statement. -/
theorem exists_node (h : IsStatement dialect kind text row) (before after : List Char)
    (line : Nat) :
    ∃ node, nodeOver kind.nodeKind none (tokensFrom (Text.byteLength before) line row) = some node ∧
      IsNodeOf (before ++ text ++ after) kind text node := by
  have hstop : stopOf (tokensFrom (Text.byteLength before) line row) =
      Text.byteLength before + Text.byteLength text := by
    obtain ⟨front, last, lastText, hrow, hseparator, -⟩ := h.ends
    have hlast : last ≠ .newline := by
      rintro rfl
      cases hseparator
    rw [← h.text, hrow, tokensFrom_append]
    simp [stopOf, tokensFrom, hlast, Token.stop, Nat.add_assoc]
  obtain ⟨c, word, later, hrow, -⟩ := h.starts
  rw [hrow] at hstop ⊢
  refine ⟨_, rfl, rfl, rfl, ?_⟩
  have hslice := sliceBytes_middle before text after
  rwa [← hstop] at hslice

/-- A layout and a statement behind it leave the statement as the one at hand. The one that was at
hand before is finished; where the layout does not separate there is none. -/
theorem outline_behind (h : IsStatement dialect kind text row) {separates : Bool}
    {gaps : List Piece} (hlayout : IsLayout separates gaps) {items : List Item}
    {pending : List Token} (hends : pending = [] ∨ separates = true)
    (hmore : Draft.expectsMore pending = false) {place next start line : Nat}
    {later : List Token} :
    Draft.outline ⟨[], items, pending, []⟩
        (tokensFrom place next gaps ++ (tokensFrom start line row ++ later)) =
      Draft.outline ⟨[], (Draft.mk [] items pending []).finish.items,
        (tokensFrom start line row).reverse, []⟩ later := by
  let finished := (Draft.mk [] items pending []).finish
  have hseparators := hlayout.isSeparator place next
  have hfinishes : Draft.outline ⟨[], items, pending, []⟩
      (tokensFrom place next gaps ++ (tokensFrom start line row ++ later)) =
        finished.outline (tokensFrom start line row ++ later) := by
    rcases hends with rfl | rfl
    · exact Draft.outline_separators_nil hseparators rfl rfl
    · exact Draft.outline_separators_finish (hlayout.tokens_ne_nil _ _) hseparators rfl hmore
        (h.goesOn _ _ later)
  have hjoined : ({ finished with
      statement := (tokensFrom start line row).reverse ++ finished.statement } : Draft) =
        ⟨[], finished.items, (tokensFrom start line row).reverse, []⟩ := by
    simp [finished]
  rw [hfinishes, Draft.outline_stays h.stays (map_kind_tokensFrom start line row), hjoined]

end IsStatement

/-! ## Scripts -/

/-- A source that has some statements one after the other, with layouts before and between them and
an ending behind them. Only where the script begins may a statement stand behind a layout that does
not separate. -/
inductive Written {σ : Type} (nests : Bool) (text : σ → List Char) :
    (begins : Bool) → List σ → List Char → Prop
  /-- No statement is left. -/
  | ending {begins : Bool} {source : List Char} (h : Ending nests source) :
      Written nests text begins [] source
  /-- A statement, and then those behind it. -/
  | statement {begins separates : Bool} {layout source : List Char} {first : σ} {rest : List σ}
      (hlayout : Layout nests separates layout) (hbegins : begins = true ∨ separates = true)
      (hrest : Written nests text false rest source) :
      Written nests text begins (first :: rest) (layout ++ (text first ++ source))

namespace Written

variable {σ : Type} {text : σ → List Char} {kind : σ → LeafKind} {nests begins : Bool}
  {statements : List σ} {source : List Char}

/-- A layout stands behind a statement. -/
theorem head (h : Written nests text false statements source) :
    ∀ c ∈ source.head?, startsLayout c = true := by
  cases h with
  | ending h => exact h.head
  | statement hlayout hbegins _ =>
    obtain rfl := hbegins.resolve_left Bool.false_ne_true
    intro c hc
    refine hlayout.head c ?_
    rwa [List.head?_append_of_ne_nil _ hlayout.ne_nil] at hc

/-- A script that is written as some statements is cut into pieces whose outline, from a statement
at hand that does not ask for more, has that statement and then those written. -/
theorem exists_outline (h : Written nests text begins statements source)
    (hnests : nests = true → dialect = .kotlin)
    (hstatements : ∀ statement ∈ statements,
      ∃ row, IsStatement dialect (kind statement) (text statement) row) :
    ∃ cut, textOf cut = source ∧ ReadsAlways dialect cut ∧
      ∀ (before : List Char) (line : Nat) (items : List Item) (pending : List Token),
        (begins = true → pending = []) → Draft.expectsMore pending = false →
        ∃ leaves, Draft.outline ⟨[], items, pending, []⟩
            (tokensFrom (Text.byteLength before) line cut) =
              .ok ((Draft.mk [] items pending []).finish.items.reverse ++ leaves) ∧
          List.Forall₂ (fun statement => IsNodeOf (before ++ source) (kind statement)
            (text statement)) statements (nodesOf leaves) := by
  induction h with
  | ending hending =>
    obtain ⟨gaps, htext, hlayout, hreads⟩ := hending.exists_pieces hnests
    refine ⟨gaps, htext, hreads, fun before line items pending _ hmore => ⟨[], ?_, .nil⟩⟩
    rw [List.append_nil]
    exact Draft.outline_separators_end (hlayout.isSeparator _ _) hmore
  | @statement begins separates layout source first rest hlayout hbegins hrest ih =>
    obtain ⟨row, hrow⟩ := hstatements first (List.mem_cons_self ..)
    obtain ⟨gaps, hgaps, hisLayout, hreadsGaps⟩ := hlayout.exists_pieces hnests
    obtain ⟨cut, hcut, hreads, houtline⟩ :=
      ih fun statement h => hstatements statement (List.mem_cons_of_mem _ h)
    refine ⟨gaps ++ (row ++ cut), by simp [hgaps, hrow.text, hcut],
      hreadsGaps _ (hrow.reads (hcut ▸ hrest.head) hreads), ?_⟩
    intro before line items pending hpending hmore
    rw [tokensFrom_append, tokensFrom_append, hgaps, hrow.text, ← Text.byteLength_append,
      ← Text.byteLength_append]
    generalize line + Text.newlines layout = next
    let words := tokensFrom (Text.byteLength (before ++ layout)) next row
    obtain ⟨leaves, hleaves, hnodes⟩ := houtline (before ++ layout ++ text first)
      (next + Text.newlines (text first)) (Draft.mk [] items pending []).finish.items words.reverse
      (by simp) (hrow.expectsMore _ _)
    obtain ⟨node, hnode, hisNode⟩ := hrow.exists_node (before ++ layout) source next
    refine ⟨.leaf (kind first) words :: leaves, ?_, ?_⟩
    · rw [hrow.outline_behind hisLayout (hbegins.imp_left hpending) hmore, hleaves,
        Draft.finish_items (hrow.tokens_ne_nil _ _), hrow.leaf]
      simp [words]
    · rw [nodesOf_leaf, hnode]
      refine .cons ?_ ?_
      · simpa using hisNode
      · simpa using hnodes

/-- A script of statements starts with a layout, or with a letter or digit. -/
theorem head_cases (h : Written nests text begins statements source)
    (hstatements : ∀ statement ∈ statements,
      ∃ row, IsStatement dialect (kind statement) (text statement) row) :
    ∀ c ∈ source.head?, startsLayout c = true ∨ Text.isAsciiAlphanumeric c = true := by
  cases h with
  | ending h => exact fun c hc => Or.inl (h.head c hc)
  | @statement _ _ layout source first rest hlayout _ _ =>
    intro c hc
    cases layout with
    | cons d layout => exact Or.inl (hlayout.head c hc)
    | nil =>
      obtain ⟨row, hrow⟩ := hstatements first (List.mem_cons_self ..)
      rw [List.nil_append, List.head?_append_of_ne_nil _ hrow.ne_nil] at hc
      exact Or.inr (hrow.head c hc)

/-- A script of statements names no interpreter and starts with no byte order mark. -/
theorem starts_plainly (h : Written nests text begins statements source)
    (hstatements : ∀ statement ∈ statements,
      ∃ row, IsStatement dialect (kind statement) (text statement) row) :
    ¬ ['#', '!'] <+: source ∧ Text.dropByteOrderMark source = source := by
  have hhead := h.head_cases hstatements
  constructor
  · rintro ⟨later, rfl⟩
    exact absurd (hhead '#' rfl) (by decide)
  · unfold Text.dropByteOrderMark
    split
    · exact absurd (hhead '\ufeff' rfl) (by decide)
    · rfl

/-- A script that is written as some statements is accepted, and its tree has these statements, one
node for each. -/
theorem exists_tree (h : Written nests text true statements source)
    (hnests : nests = true → dialect = .kotlin)
    (hstatements : ∀ statement ∈ statements,
      ∃ row, IsStatement dialect (kind statement) (text statement) row) :
    ∃ nodes, tree dialect source = .ok (.mk .script none 0 (Text.byteLength source) 1 nodes) ∧
      List.Forall₂ (fun statement => IsNodeOf source (kind statement) (text statement)) statements
        nodes := by
  obtain ⟨cut, hcut, hreads, houtline⟩ := h.exists_outline hnests hstatements
  obtain ⟨leaves, hleaves, hnodes⟩ := houtline [] 1 [] [] (fun _ => rfl) rfl
  have htokens : tokens dialect source = .ok (tokensFrom 0 1 cut) :=
    tokens_eq_ok_iff.mpr
      ⟨cut, .plain (hcut ▸ (h.starts_plainly hstatements).1) (hreads none), hcut, rfl⟩
  refine ⟨nodesOf leaves, tree_eq_ok_iff.mpr ⟨_, leaves, htokens, ?_, rfl⟩, hnodes⟩
  simpa [outline, Draft.empty, Draft.finish] using hleaves

/-- Such a script is parsed to a file with these statements. -/
theorem exists_unit (h : Written nests text true statements source)
    (hnests : nests = true → dialect = .kotlin)
    (hstatements : ∀ statement ∈ statements,
      ∃ row, IsStatement dialect (kind statement) (text statement) row)
    {path : Path} (hpath : Language.ofPath? path = some dialect.language) :
    ∃ unit, SourceUnit.ofText path source = .ok unit ∧ unit.language = dialect.language ∧
      unit.root.kind = .script ∧
      List.Forall₂ (fun statement node => node.kind = (kind statement).nodeKind ∧
        node.children = [] ∧ unit.text node = text statement) statements unit.root.children := by
  obtain ⟨nodes, htree, hnodes⟩ := h.exists_tree hnests hstatements
  have hparse : dialect.language.tree path source = .ok _ := language_tree_eq_ok_iff.mpr htree
  have hmark := (h.starts_plainly hstatements).2
  refine ⟨_, by rw [SourceUnit.ofText, hpath, hmark]; simp only [hparse]; rfl, rfl, rfl, ?_⟩
  exact hnodes.imp fun _ _ hnode => ⟨hnode.kind, hnode.children, hnode.text⟩

end Written

end CorpusFacts.Script
