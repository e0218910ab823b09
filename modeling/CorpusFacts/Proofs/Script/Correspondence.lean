import CorpusFacts.Proofs.Script.Coverage
import CorpusFacts.Proofs.Script.Parallel
import CorpusFacts.Proofs.Analysis.TextSurvey

/-!
# Outlines that correspond token by token

Two scripts whose tokens correspond one by one have outlines that nest the same, whatever finished
items stand before the second one. Only the kinds of the tokens matter, the characters of words, and
which marks touch; so literals may differ, and every token may lie elsewhere. Corresponding items
make nodes that start and end with corresponding tokens.
-/

namespace CorpusFacts.Script

/-- A correspondence between the tokens of two scripts that keeps kinds and words. -/
structure Correspondence where
  /-- Whether two tokens correspond. -/
  like : Token → Token → Prop
  /-- Corresponding tokens are of one kind. -/
  kind_eq : ∀ token twin, like token twin → twin.kind = token.kind
  /-- Corresponding words have the same characters. -/
  word_eq : ∀ token twin, like token twin → token.kind = .word → twin.text = token.text

namespace Correspondence

variable (pairing : Correspondence)

/-- The tokens of two statements or headers correspond one by one, and no separator starts them. -/
structure Rows (row other : List Token) : Prop where
  /-- The tokens correspond. -/
  tokens : List.Forall₂ pairing.like row other
  /-- The row starts with no separator. -/
  starts : StartsPlainly row

/-- Two rows of items correspond. -/
inductive Items : (items others : List Item) → Prop
  /-- Nothing is left in either row. -/
  | nil : Items [] []
  /-- Two statements of one kind correspond, and then the items behind them. -/
  | leaf (kind : LeafKind) {statement other : List Token} {items others : List Item}
      (hne : statement ≠ []) (hrow : pairing.Rows statement other) (hrest : Items items others) :
      Items (.leaf kind statement :: items) (.leaf kind other :: others)
  /-- Two blocks correspond, and then the items behind them. -/
  | block {header otherHeader : List Token} {opening otherOpening closing otherClosing : Token}
      {body otherBody items others : List Item} (hheader : pairing.Rows header otherHeader)
      (hopening : pairing.like opening otherOpening) (hbrace : opening.kind ≠ .newline)
      (hbody : Items body otherBody) (hclosing : pairing.like closing otherClosing)
      (hrest : Items items others) :
      Items (.block header opening body closing :: items)
        (.block otherHeader otherOpening otherBody otherClosing :: others)

/-- What is open and what is finished corresponds, but for items that stand before all others in the
second draft. The items in a block are last first. -/
inductive Stacks (before : List Item) :
    (blocks : List OpenBlock) → (items : List Item) → (otherBlocks : List OpenBlock) →
      (others : List Item) → Prop
  /-- Outside of all blocks the finished items correspond behind those that stand before. -/
  | bottom {items others later : List Item} (hothers : others.reverse = before ++ later)
      (hitems : pairing.Items items.reverse later) : Stacks before [] items [] others
  /-- Inside of a block they correspond as they are. -/
  | inside {block other : OpenBlock} {outer otherOuter : List OpenBlock} {items others : List Item}
      (hheader : pairing.Rows block.header other.header)
      (hopening : pairing.like block.opening other.opening)
      (hbrace : block.opening.kind ≠ .newline)
      (houter : Stacks before outer block.before otherOuter other.before)
      (hitems : pairing.Items items.reverse others.reverse) :
      Stacks before (block :: outer) items (other :: otherOuter) others

/-- Two drafts correspond, but for items that stand before all others in the second one. -/
structure Drafts (before : List Item) (draft other : Draft) : Prop where
  /-- What is open and what is finished corresponds. -/
  stack : pairing.Stacks before draft.blocks draft.items other.blocks other.items
  /-- The statements at hand correspond. -/
  statement : pairing.Rows draft.statement.reverse other.statement.reverse

variable {pairing}

namespace Rows

variable {row other : List Token}

theorem nil : pairing.Rows [] [] :=
  ⟨.nil, by simp [StartsPlainly]⟩

/-- There are tokens in both rows or in neither. -/
theorem nil_iff (h : pairing.Rows row other) : other = [] ↔ row = [] := by
  rw [← List.length_eq_zero_iff, ← h.tokens.length_eq, List.length_eq_zero_iff]

/-- The first tokens of corresponding rows correspond, and are no line breaks. -/
theorem head {first : Token} {rest : List Token} (h : pairing.Rows (first :: rest) other) :
    ∃ otherFirst otherRest, other = otherFirst :: otherRest ∧ pairing.like first otherFirst ∧
      first.kind ≠ .newline := by
  obtain ⟨otherFirst, otherRest, hfirst, _, rfl⟩ := List.forall₂_cons_left_iff.mp h.tokens
  refine ⟨otherFirst, otherRest, rfl, hfirst, fun hkind => ?_⟩
  have hplain := h.starts first rfl
  simp [hkind] at hplain

/-- Rows still correspond when corresponding tokens join them. -/
theorem snoc (h : pairing.Rows row other) {token twin : Token} (hlike : pairing.like token twin)
    (hstarts : row = [] → token.kind.isSeparator = false) :
    pairing.Rows (row ++ [token]) (other ++ [twin]) := by
  refine ⟨List.rel_append h.tokens (.cons hlike .nil), ?_⟩
  cases row with
  | nil => simpa [StartsPlainly] using hstarts rfl
  | cons first rest => exact h.starts

/-- Corresponding statements are for the same. -/
theorem leafKind_eq (h : pairing.Rows row other) :
    Draft.leafKind other = Draft.leafKind row := by
  obtain ⟨htokens, _⟩ := h
  cases htokens with
  | nil => rfl
  | @cons first _ _ _ hfirst hrest =>
    cases hrest with
    | nil => rfl
    | cons _ _ =>
      have hkind := pairing.kind_eq _ _ hfirst
      simp only [Draft.leafKind, hkind]
      by_cases hword : first.kind = .word
      · rw [pairing.word_eq _ _ hfirst hword]
      · simp [hword]

/-- Corresponding statements and headers end with corresponding tokens. -/
theorem stopOf_eq (h : pairing.Rows row other) (hne : row ≠ []) :
    ∃ token twin, pairing.like token twin ∧ stopOf row = token.stop ∧ stopOf other = twin.stop := by
  have hdrop {tokens others : List Token} (h : List.Forall₂ pairing.like tokens others) :
      List.Forall₂ pairing.like (tokens.dropWhile (·.kind == .newline))
        (others.dropWhile (·.kind == .newline)) := by
    induction h with
    | nil => exact .nil
    | cons hlike hrest ih =>
      rw [List.dropWhile_cons, List.dropWhile_cons, pairing.kind_eq _ _ hlike]
      split
      · exact ih
      · exact .cons hlike hrest
  have hreverse := List.forall₂_reverse_iff.mpr h.tokens
  simp only [stopOf, ← List.head?_reverse]
  generalize hrow : row.reverse = tokens at hreverse
  generalize other.reverse = others at hreverse
  cases hreverse with
  | nil => exact (hne (by simpa using hrow)).elim
  | @cons last otherLast tokens others hlast hrest =>
    generalize hkept : (last :: tokens).dropWhile (·.kind == .newline) = kept
    generalize hotherKept : (otherLast :: others).dropWhile (·.kind == .newline) = otherKept
    have hboth := hdrop (.cons hlast hrest)
    rw [hkept, hotherKept] at hboth
    cases hboth with
    | nil => exact ⟨last, otherLast, hlast, rfl, rfl⟩
    | cons hlike _ => exact ⟨_, _, hlike, rfl, rfl⟩

end Rows

/-- Corresponding items stay so with others behind them that correspond. -/
theorem Items.append {items others later otherLater : List Item} (h : pairing.Items items others)
    (hlater : pairing.Items later otherLater) :
    pairing.Items (items ++ later) (others ++ otherLater) := by
  induction h with
  | nil => exact hlater
  | leaf kind hne hrow _ ih => exact .leaf kind hne hrow ih
  | block hheader hopening hbrace hbody hclosing _ _ ih =>
    exact .block hheader hopening hbrace hbody hclosing ih

variable {before : List Item} {draft other : Draft}

/-- One more finished item on each side. -/
theorem Stacks.push {blocks otherBlocks : List OpenBlock} {items others : List Item}
    {item otherItem : Item} (h : pairing.Stacks before blocks items otherBlocks others)
    (hitem : pairing.Items [item] [otherItem]) :
    pairing.Stacks before blocks (item :: items) otherBlocks (otherItem :: others) := by
  cases h with
  | @bottom _ _ later hothers hitems =>
    have hlater : (otherItem :: others).reverse = before ++ (later ++ [otherItem]) := by
      rw [List.reverse_cons, hothers, List.append_assoc]
    refine .bottom hlater ?_
    rw [List.reverse_cons]
    exact hitems.append hitem
  | inside hheader hopening hbrace houter hitems =>
    refine .inside hheader hopening hbrace houter ?_
    rw [List.reverse_cons, List.reverse_cons]
    exact hitems.append hitem

namespace Drafts

/-- Finishing the statements at hand makes corresponding items of them. -/
theorem finish (h : pairing.Drafts before draft other) :
    pairing.Stacks before draft.finish.blocks draft.finish.items other.finish.blocks
      other.finish.items := by
  have hempty := h.statement.nil_iff
  simp only [List.reverse_eq_nil_iff] at hempty
  cases hstatement : draft.statement with
  | nil =>
    rw [Draft.finish_of_statement_nil hstatement,
      Draft.finish_of_statement_nil (hempty.mpr hstatement)]
    exact h.stack
  | cons last earlier =>
    cases hother : other.statement with
    | nil => simp [hstatement, hother] at hempty
    | cons otherLast otherEarlier =>
      have hrow := h.statement
      rw [hstatement, hother] at hrow
      have hleaf := Items.leaf (Draft.leafKind (last :: earlier).reverse) (by simp) hrow .nil
      have hkind := hrow.leafKind_eq
      simp only [Draft.finish, hstatement, hother, hkind]
      exact h.stack.push hleaf

/-- Drafts still correspond after the same move. -/
theorem parallel {next otherNext : Draft} {token twin : Token} (hlike : pairing.like token twin)
    (h : pairing.Drafts before draft other)
    (hmove : Draft.Parallel draft other token twin next otherNext) :
    pairing.Drafts before next otherNext := by
  cases hmove with
  | separates _ => exact ⟨h.finish, by simpa using Rows.nil⟩
  | joins brackets otherBrackets hstarts =>
    refine ⟨h.stack, ?_⟩
    have hrow := h.statement.snoc hlike (fun hnil => hstarts (by simpa using hnil))
    simpa [Draft.take] using hrow
  | enters hbrace =>
    exact ⟨.inside h.statement hlike (by simp [hbrace]) h.stack .nil, Rows.nil⟩
  | leaves around otherAround outer otherOuter _ hblocks hotherBlocks =>
    have hfinish := h.finish
    rw [Draft.finish_blocks, Draft.finish_blocks, hblocks, hotherBlocks] at hfinish
    cases hfinish with
    | inside hheader hopening hbrace houter hitems =>
      exact ⟨houter.push (.block hheader hopening hbrace hitems hlike .nil), Rows.nil⟩

end Drafts

/-- Scripts whose tokens correspond have corresponding outlines, whatever items stand before the
second one. -/
theorem outline_behind (before : List Item) {last otherLast : Option Token}
    {tokens others : List Token} {items : List Item}
    (htwins : Twins pairing.like last otherLast tokens others)
    (hitems : outline tokens = .ok items) :
    ∃ otherItems, Draft.outline ⟨[], before.reverse, [], []⟩ others = .ok (before ++ otherItems) ∧
      pairing.Items items otherItems := by
  have hlock : Draft.Lockstep last otherLast .empty ⟨[], before.reverse, [], []⟩ :=
    .of_statement_nil rfl rfl rfl rfl rfl
  have hstart : pairing.Drafts before .empty ⟨[], before.reverse, [], []⟩ :=
    ⟨.bottom (show before.reverse.reverse = before ++ [] by simp) .nil, Rows.nil⟩
  rw [outline, ← List.append_nil tokens] at hitems
  obtain ⟨next, otherNext, _, _, hnext, hother, hlock, hdrafts⟩ :=
    hlock.run (fun _ => pairing.Drafts before) pairing.kind_eq
      (fun hlike h _ => Drafts.parallel hlike h) [] htwins (show Draft.goesOn [] = _ from rfl)
      hstart hitems
  have hclose := hlock.close hnext
  obtain ⟨_, hblocks, rfl⟩ := Draft.close_eq_ok_iff.mp hnext
  have hstacks := hdrafts.finish
  rw [Draft.finish_blocks, hblocks] at hstacks
  generalize otherNext.finish.blocks = otherBlocks at hstacks
  cases hstacks with
  | bottom hothers hitems =>
    refine ⟨_, ?_, hitems⟩
    rw [← List.append_nil others, hother, ← hothers]
    exact hclose

/-- Scripts whose tokens correspond have corresponding outlines. -/
theorem outline {last otherLast : Option Token} {tokens others : List Token} {items : List Item}
    (htwins : Twins pairing.like last otherLast tokens others)
    (hitems : Script.outline tokens = .ok items) :
    ∃ otherItems, Script.outline others = .ok otherItems ∧ pairing.Items items otherItems :=
  outline_behind [] htwins hitems

/-- The correspondence the other way round. -/
def flip (pairing : Correspondence) : Correspondence where
  like twin token := pairing.like token twin
  kind_eq twin token h := (pairing.kind_eq token twin h).symm
  word_eq twin token h hword :=
    (pairing.word_eq token twin h ((pairing.kind_eq token twin h).symm.trans hword)).symm

/-- A script has an outline if a script with corresponding tokens has one. -/
theorem exists_outline {last otherLast : Option Token} {tokens others : List Token}
    {otherItems : List Item} (htwins : Twins pairing.like last otherLast tokens others)
    (hitems : Script.outline others = .ok otherItems) :
    ∃ items, Script.outline tokens = .ok items :=
  have hflipped : Twins pairing.flip.like otherLast last others tokens :=
    htwins.flip pairing.kind_eq
  (outline hflipped hitems).imp fun _ h => h.1

variable (pairing) in
/-- Two nodes are of one kind and role, and start and end with corresponding tokens. -/
structure SameSpan (node twin : Node) : Prop where
  /-- They are of one kind. -/
  kind : twin.kind = node.kind
  /-- They have one role. -/
  role : twin.role = node.role
  /-- They start with corresponding tokens, which are no line breaks. -/
  starts : ∃ token other, pairing.like token other ∧ token.kind ≠ .newline ∧
    node.start = token.start ∧ twin.start = other.start ∧
    node.line = token.line ∧ twin.line = other.line
  /-- They end with corresponding tokens. -/
  stops : ∃ token other, pairing.like token other ∧ node.stop = token.stop ∧ twin.stop = other.stop

/-- Corresponding rows have corresponding nodes. -/
theorem Rows.nodes (kind : NodeKind) (role : Option Role) {row other : List Token}
    (h : pairing.Rows row other) :
    Node.AllAlike pairing.SameSpan (nodeOver kind role row).toList
      (nodeOver kind role other).toList := by
  cases row with
  | nil =>
    rw [h.nil_iff.mpr rfl]
    exact .nil
  | cons first rest =>
    have hstops := h.stopOf_eq (List.cons_ne_nil _ _)
    obtain ⟨otherFirst, otherRest, rfl, hfirst, hplain⟩ := h.head
    exact .cons ⟨rfl, rfl, ⟨first, otherFirst, hfirst, hplain, rfl, rfl, rfl, rfl⟩, hstops⟩
      .nil .nil

/-- Corresponding items have corresponding nodes. -/
theorem Items.nodes {items others : List Item} (h : pairing.Items items others) :
    Node.AllAlike pairing.SameSpan (nodesOf items) (nodesOf others) := by
  induction h with
  | nil => exact .nil
  | leaf kind _ hrow _ ih =>
    rw [nodesOf_leaf, nodesOf_leaf]
    exact (hrow.nodes _ _).append ih
  | @block header otherHeader opening otherOpening closing otherClosing _ _ _ _ hheader hopening
      hbrace _ hclosing _ ihbody ihrest =>
    simp only [nodesOf, Item.node?, Option.toList_some, List.singleton_append]
    have hfirst : pairing.like (header.head?.getD opening) (otherHeader.head?.getD otherOpening) ∧
        (header.head?.getD opening).kind ≠ .newline := by
      cases header with
      | nil =>
        rw [hheader.nil_iff.mpr rfl]
        exact ⟨hopening, hbrace⟩
      | cons first rest =>
        obtain ⟨otherFirst, otherRest, rfl, hfirst, hplain⟩ := hheader.head
        exact ⟨hfirst, hplain⟩
    exact .cons ⟨rfl, rfl, ⟨_, _, hfirst.1, hfirst.2, rfl, rfl, rfl, rfl⟩, _, _, hclosing, rfl, rfl⟩
      ((hheader.nodes _ _).append ihbody) ihrest

end Correspondence

end CorpusFacts.Script
