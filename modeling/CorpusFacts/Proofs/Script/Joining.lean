import CorpusFacts.Proofs.Script.Correspondence
import CorpusFacts.Proofs.Script.Exchange
import CorpusFacts.Proofs.Script.SpareLines

/-!
# One script behind another

Two scripts are put one behind the other with a semicolon on a line of its own between them. The
whole is read as the parts are: no comment or literal of the first one goes on, and the statement
that the first one ends with is finished. So the tree of the whole has the statements and blocks of
both parts, those of the second one moved to their new places.
-/

namespace CorpusFacts

/-- A token moved behind a text of some bytes and line breaks. -/
def Token.moved (bytes lines : Nat) (token : Token) : Token :=
  { token with start := token.start + bytes, line := token.line + lines }

mutual

/-- A tree moved behind a text of some bytes and line breaks. -/
def Node.moved (bytes lines : Nat) : Node → Node
  | .mk kind role start stop line children =>
    .mk kind role (start + bytes) (stop + bytes) (line + lines) (Node.allMoved bytes lines children)

/-- Some trees moved behind a text of some bytes and line breaks. -/
def Node.allMoved (bytes lines : Nat) : List Node → List Node
  | [] => []
  | node :: nodes => node.moved bytes lines :: Node.allMoved bytes lines nodes

end

variable {bytes lines : Nat}

@[simp] theorem Token.moved_stop (token : Token) :
    (token.moved bytes lines).stop = token.stop + bytes := by
  simp only [Token.moved, Token.stop]
  omega

theorem Node.allMoved_eq_map (nodes : List Node) :
    Node.allMoved bytes lines nodes = nodes.map (·.moved bytes lines) := by
  induction nodes with
  | nil => rfl
  | cons node nodes ih => rw [Node.allMoved, ih, List.map_cons]

@[simp] theorem Node.moved_kind (node : Node) : (node.moved bytes lines).kind = node.kind := by
  cases node
  rfl

@[simp] theorem Node.moved_role (node : Node) : (node.moved bytes lines).role = node.role := by
  cases node
  rfl

@[simp] theorem Node.moved_start (node : Node) :
    (node.moved bytes lines).start = node.start + bytes := by
  cases node
  rfl

@[simp] theorem Node.moved_stop (node : Node) :
    (node.moved bytes lines).stop = node.stop + bytes := by
  cases node
  rfl

@[simp] theorem Node.moved_line (node : Node) :
    (node.moved bytes lines).line = node.line + lines := by
  cases node
  rfl

@[simp] theorem Node.moved_children (node : Node) :
    (node.moved bytes lines).children = node.children.map (·.moved bytes lines) := by
  cases node
  exact Node.allMoved_eq_map _

/-- A node is known from its parts. -/
theorem Node.ext_parts {node twin : Node} (hkind : twin.kind = node.kind)
    (hrole : twin.role = node.role) (hstart : twin.start = node.start)
    (hstop : twin.stop = node.stop) (hline : twin.line = node.line)
    (hchildren : twin.children = node.children) : twin = node := by
  cases node
  cases twin
  simp only [Node.kind, Node.role, Node.start, Node.stop, Node.line, Node.children] at *
  simp only [*]

/-- The tokens of some pieces that stand further behind. -/
theorem tokensFrom_moved (start line : Nat) (pieces : List Piece) :
    tokensFrom (start + bytes) (line + lines) pieces =
      (tokensFrom start line pieces).map (·.moved bytes lines) := by
  induction pieces generalizing start line with
  | nil => rfl
  | cons piece pieces ih =>
    have hstart : start + bytes + Text.byteLength piece.text =
        start + Text.byteLength piece.text + bytes := by omega
    have hline : line + lines + Text.newlines piece.text =
        line + Text.newlines piece.text + lines := by omega
    simp only [tokensFrom, hstart, hline, ih]
    split <;> rfl

namespace Script

/-- A semicolon on a line of its own. -/
def separation : List Piece :=
  [lineBreak, ⟨.token .semicolon, [';']⟩, lineBreak]

theorem textOf_separation : textOf separation = "\n;\n".toList := by
  decide

/-- Tokens correspond to those of the same script further behind. -/
def moving (bytes lines : Nat) : Correspondence where
  like token twin := twin = token.moved bytes lines
  kind_eq _ _ h := h ▸ rfl
  word_eq _ _ h _ := h ▸ rfl

/-- A row of tokens corresponds to itself further behind. -/
theorem twins_moving (last : Option Token) (row : List Token) :
    Twins (moving bytes lines).like last (last.map (·.moved bytes lines)) row
      (row.map (·.moved bytes lines)) := by
  induction row generalizing last with
  | nil => exact .nil
  | cons token row ih =>
    refine .cons rfl ?_ (ih (some token))
    intro mark _ before hbefore other hother
    obtain rfl : last = some before := hbefore
    obtain rfl : before.moved bytes lines = other := Option.some.inj hother
    rw [Token.moved_stop]
    simp [Token.moved]

/-- Nodes further behind are the moved nodes. -/
theorem eq_map_moved {nodes others : List Node}
    (h : Node.AllAlike (moving bytes lines).SameSpan nodes others) :
    others = nodes.map (·.moved bytes lines) := by
  induction h with
  | nil => rfl
  | @cons node twin nodes others hsame _ _ ihbelow ihrest =>
    obtain ⟨hkind, hrole, ⟨_, _, rfl, _, hstart, hotherStart, hline, hotherLine⟩,
      ⟨_, _, rfl, hstop, hotherStop⟩⟩ := hsame
    rw [List.map_cons, ihrest]
    congr 1
    refine Node.ext_parts (by simpa using hkind) (by simpa using hrole) ?_ ?_ ?_
      (by simpa using ihbelow)
    · rw [hotherStart, Node.moved_start, hstart]
      rfl
    · rw [hotherStop, Node.moved_stop, hstop, Token.moved_stop]
    · rw [hotherLine, Node.moved_line, hline]
      rfl

theorem nodesOf_append (first second : List Item) :
    nodesOf (first ++ second) = nodesOf first ++ nodesOf second := by
  induction first with
  | nil => rfl
  | cons item first ih => rw [List.cons_append, nodesOf, ih, nodesOf, List.append_assoc]

/-- The tokens of a semicolon on a line of its own. -/
def separators (start line : Nat) : List Token :=
  [⟨.newline, ['\n'], start, line⟩, ⟨.semicolon, [';'], start + 1, line + 1⟩,
    ⟨.newline, ['\n'], start + 2, line + 1⟩]

/-- The tokens of one script behind another: those of the first one, those between the two, and
those of the second one at their new places. -/
theorem tokensFrom_join (firstCut secondCut : List Piece) :
    tokensFrom 0 1 (firstCut ++ (separation ++ secondCut)) =
      tokensFrom 0 1 firstCut ++
        (separators (Text.byteLength (textOf firstCut)) (1 + Text.newlines (textOf firstCut)) ++
          (tokensFrom 0 1 secondCut).map
            (·.moved (Text.byteLength (textOf firstCut) + 3)
              (Text.newlines (textOf firstCut) + 2))) := by
  have hlater (start line : Nat) : tokensFrom start line (separation ++ secondCut) =
      separators start line ++ tokensFrom (start + 3) (line + 2) secondCut := rfl
  rw [tokensFrom_append, hlater, ← tokensFrom_moved, Nat.add_assoc, Nat.add_assoc,
    Nat.zero_add (Text.byteLength (textOf firstCut))]

section

variable {dialect : Dialect} {firstCut secondCut : List Piece}

/-- A script can be read behind another one, if it names no interpreter. -/
theorem ReadsScript.join (hfirst : ReadsScript dialect firstCut)
    (hsecond : ReadsScript dialect secondCut) (hplain : ¬ ['#', '!'] <+: textOf secondCut) :
    ReadsScript dialect (firstCut ++ (separation ++ secondCut)) := by
  have hreads : (rule dialect).Reads none secondCut := by
    cases hsecond with
    | plain _ hreads => exact hreads
    | interpreter hnames _ _ _ =>
      exact (hplain (hnames.trans (List.prefix_append _ _))).elim
  have hlater (before : Option TokenKind) :
      (rule dialect).Reads before (separation ++ secondCut) := by
    have hsemicolon : Cuts dialect (some .newline) ';' ([] ++ textOf (lineBreak :: secondCut))
      (.token .semicolon) (textOf (lineBreak :: secondCut)) := .semicolon rfl
    refine reads_lineBreak_iff.mpr ⟨rfl, .cons hsemicolon.nextPiece ?_⟩
    have hbehind : (rule dialect).Reads (some .newline) secondCut :=
      reads_of_startsOperand (show startsOperand _ = startsOperand none from rfl) hreads
    exact reads_lineBreak_iff.mpr ⟨rfl, hbehind⟩
  rw [← List.append_nil firstCut] at hfirst
  refine hfirst.follows (by simp) (Or.inr (Or.inr (Or.inr rfl))) (fun _ => ?_) ?_
    fun before _ => hlater before
  · simp [separation, lineBreak, LineEnds]
  · simp [separation, lineBreak]

end

namespace Draft

/-- What follows some tokens matters to them in whether it goes on behind a line break only. -/
theorem goesOn_append {rest : List Token} (hrest : goesOn rest = false) (row : List Token) :
    goesOn (row ++ rest) = goesOn row := by
  induction row with
  | nil => exact hrest
  | cons token row ih => rw [List.cons_append, goesOn_cons, goesOn_cons, ih]

/-- An outline comes to a draft from which it can be closed, and to the same one where more tokens
follow that do not go on with the last statement. -/
theorem outline_reaches {draft : Draft} {row : List Token} {items : List Item}
    (h : draft.outline row = .ok items) :
    ∃ last : Draft, last.close = .ok items ∧
      ∀ rest, goesOn rest = false → draft.outline (row ++ rest) = last.outline rest := by
  induction row generalizing draft with
  | nil => exact ⟨draft, h, fun _ _ => rfl⟩
  | cons token row ih =>
    rw [outline] at h
    split at h
    · rename_i next hstep
      obtain ⟨last, hlast, hreaches⟩ := ih h
      refine ⟨last, hlast, fun rest hrest => ?_⟩
      have hsame : draft.step token (row ++ rest) = draft.step token row := by
        simp only [step, goesOn_append hrest]
      rw [List.cons_append, outline, hsame, hstep]
      exact hreaches rest hrest
    · cases h

/-- A statement that goes on because of how it ends ends with a mark. -/
theorem kind_of_expectsMore {last : Token} {earlier : List Token}
    (h : expectsMore (last :: earlier) = true) : ∃ mark, last.kind = .punct mark := by
  cases hkind : last.kind with
  | punct mark => exact ⟨mark, rfl⟩
  | _ => simp [expectsMore, hkind] at h

/-- A line break behind a mark changes neither what a statement is for nor its node. -/
theorem leaf_snoc_newline (row : List Token) {newline last : Token} {mark : Char}
    (hmark : last.kind = .punct mark) (hnewline : newline.kind = .newline) :
    leafKind (row ++ [last] ++ [newline]) = leafKind (row ++ [last]) ∧
      ∀ kind role, nodeOver kind role (row ++ [last] ++ [newline]) =
        nodeOver kind role (row ++ [last]) := by
  have hstop : stopOf (row ++ [last] ++ [newline]) = stopOf (row ++ [last]) := by
    simp [stopOf, hnewline, hmark]
  constructor
  · rcases row with _ | ⟨first, _ | ⟨second, rest⟩⟩
    · simp [leafKind, hmark]
    · rfl
    · rfl
  · intro kind role
    cases hrow : row ++ [last] with
    | nil => simp at hrow
    | cons first rest =>
      rw [hrow, List.cons_append] at hstop
      simp only [List.cons_append, nodeOver, hstop]

/-- Outside of everything that is open a semicolon finishes the statement at hand, and a line break
behind it changes nothing. -/
theorem outline_semicolon_newline {draft : Draft} {semicolon newline : Token} {rest : List Token}
    (hsemicolon : semicolon.kind = .semicolon) (hnewline : newline.kind = .newline)
    (hbrackets : draft.brackets = []) (hblocks : draft.blocks = []) :
    draft.outline (semicolon :: newline :: rest) =
      outline ⟨[], draft.finish.items, [], []⟩ rest := by
  have hfinish : draft.finish = ⟨[], draft.finish.items, [], []⟩ := by
    have hparts : draft.finish = ⟨draft.finish.blocks, draft.finish.items, draft.finish.statement,
      draft.finish.brackets⟩ := rfl
    rw [hparts, finish_blocks, finish_statement, finish_brackets, hbrackets, hblocks]
  have hstep : draft.step semicolon (newline :: rest) = .ok draft.finish := by
    simp only [step, hsemicolon, hbrackets]
  rw [outline, hstep]
  simp only
  rw [outline_newline hnewline (by simpa using hbrackets)]
  simp only [continues, finish_statement, List.isEmpty_nil, Bool.not_true, Bool.false_and,
    Bool.false_eq_true, if_false, finish_finish, ← hfinish]

/-- No statement goes on behind a semicolon on a line of its own. -/
theorem goesOn_separators (start line : Nat) (rest : List Token) :
    goesOn (separators start line ++ rest) = false := by
  simp [separators, goesOn_cons]

/-- A semicolon on a line of its own finishes the last statement. -/
theorem outline_separators {draft : Draft} {items : List Item} (start line : Nat)
    (rest : List Token) (h : draft.close = .ok items) :
    ∃ before : List Item, nodesOf before = nodesOf items ∧
      draft.outline (separators start line ++ rest) =
        outline ⟨[], before.reverse, [], []⟩ rest := by
  obtain ⟨hbrackets, hblocks, rfl⟩ := close_eq_ok_iff.mp h
  simp only [separators, List.cons_append, List.nil_append]
  rw [outline_newline rfl hbrackets]
  split
  · -- The line break joins a statement that ends with an operator.
    rename_i hcontinues
    simp only [continues, goesOn_cons, reduceCtorEq, if_false, Bool.and_eq_true, Bool.or_eq_true,
      Bool.not_eq_true', List.isEmpty_eq_false_iff, List.contains_cons, List.contains_nil]
      at hcontinues
    obtain ⟨hne, hmore⟩ := hcontinues
    obtain ⟨last, earlier, hstatement⟩ := List.exists_cons_of_ne_nil hne
    rw [hstatement] at hmore
    obtain ⟨mark, hmark⟩ := kind_of_expectsMore (by simpa using hmore)
    obtain ⟨hkind, hnode⟩ := leaf_snoc_newline earlier.reverse hmark
      (show Token.kind ⟨.newline, ['\n'], start, line⟩ = .newline from rfl)
    refine ⟨(draft.take ⟨.newline, ['\n'], start, line⟩).finish.items.reverse, ?_, ?_⟩
    · simp only [finish, take, hstatement, List.reverse_cons, hkind, nodesOf_append, nodesOf,
        Item.node?, hnode]
    · rw [List.reverse_reverse]
      exact outline_semicolon_newline rfl rfl hbrackets hblocks
  · refine ⟨_, rfl, ?_⟩
    rw [outline_semicolon_newline rfl rfl (by simpa using hbrackets) (by simpa using hblocks),
      finish_finish, List.reverse_reverse]

end Draft

/-- Behind a semicolon on a line of its own a second outline goes on as it would from the start. -/
theorem outline_join {first second : List Token} {firstItems secondItems : List Item}
    (start line : Nat) (hfirst : outline first = .ok firstItems)
    (hsecond : outline second = .ok secondItems) :
    ∃ items, outline (first ++ (separators start line ++ second.map (·.moved bytes lines))) =
        .ok items ∧
      nodesOf items = nodesOf firstItems ++ (nodesOf secondItems).map (·.moved bytes lines) := by
  obtain ⟨last, hlast, hreaches⟩ := Draft.outline_reaches hfirst
  obtain ⟨before, hnodes, hseparators⟩ :=
    Draft.outline_separators start line (second.map (·.moved bytes lines)) hlast
  obtain ⟨others, hothers, hitems⟩ :=
    Correspondence.outline_behind before (twins_moving none second) hsecond
  refine ⟨before ++ others, ?_, ?_⟩
  · rw [outline, hreaches _ (Draft.goesOn_separators start line _), hseparators, hothers]
  · rw [nodesOf_append, hnodes, eq_map_moved hitems.nodes]

/-- The tree of one script behind another, with a semicolon on a line of its own between them. -/
theorem tree_join {dialect : Dialect} {first second : List Char} {firstRoot secondRoot : Node}
    (hfirst : tree dialect first = .ok firstRoot) (hsecond : tree dialect second = .ok secondRoot)
    (hplain : ¬ ['#', '!'] <+: second) :
    tree dialect (first ++ "\n;\n".toList ++ second) =
      .ok (.mk .script none 0 (Text.byteLength first + 3 + Text.byteLength second) 1
        (firstRoot.children ++ secondRoot.children.map
          (·.moved (Text.byteLength first + 3) (Text.newlines first + 2)))) := by
  obtain ⟨_, firstItems, hfirstTokens, hfirstItems, rfl⟩ := tree_eq_ok_iff.mp hfirst
  obtain ⟨_, secondItems, hsecondTokens, hsecondItems, rfl⟩ := tree_eq_ok_iff.mp hsecond
  obtain ⟨firstCut, hfirstReads, rfl, rfl⟩ := tokens_eq_ok_iff.mp hfirstTokens
  obtain ⟨secondCut, hsecondReads, rfl, rfl⟩ := tokens_eq_ok_iff.mp hsecondTokens
  have hreads := hfirstReads.join hsecondReads hplain
  have htext : textOf (firstCut ++ (separation ++ secondCut)) =
      textOf firstCut ++ "\n;\n".toList ++ textOf secondCut := by
    rw [textOf_append, textOf_append, textOf_separation, List.append_assoc]
  obtain ⟨items, hitems, hnodes⟩ := outline_join _ _ hfirstItems hsecondItems
  have htokens := tokensFrom_join firstCut secondCut
  refine tree_eq_ok_iff.mpr
    ⟨_, items, tokens_eq_ok_iff.mpr ⟨_, hreads, htext, htokens⟩, hitems, ?_⟩
  have hlength : Text.byteLength "\n;\n".toList = 3 := by decide
  rw [hnodes, Text.byteLength_append, Text.byteLength_append, hlength]
  rfl

end Script

end CorpusFacts
