import CorpusFacts.Proofs.Script.LineBreaks
import CorpusFacts.Proofs.Script.Skeleton
import Mathlib.Algebra.Ring.Nat

/-!
# A second line break

What a second line break does to an outline is seen at the draft that is reached at the first one.
It joins the statement at hand with the first one, or it stands between statements, or it ends a
statement that the first one has joined; only then can something be split.
-/

/-! ## How many nodes an outline has

The number of nodes that a draft will have adds up over its open blocks, its finished items and the
statement at hand. Drafts in step gain nodes at the same time, so the difference between them stays. -/

namespace CorpusFacts.Script

/-- The number of nodes of a statement or header: none if it has no tokens. -/
def rowCount : (row : List Token) → Nat
  | [] => 0
  | _ :: _ => 1

@[simp] theorem rowCount_nil : rowCount [] = 0 := rfl

@[simp] theorem rowCount_snoc (row : List Token) (token : Token) :
    rowCount (row ++ [token]) = 1 := by
  cases row <;> rfl

mutual

/-- The number of nodes of an item. -/
def Item.count : Item → Nat
  | .leaf _ tokens => rowCount tokens
  | .block header _ body _ => 1 + rowCount header + countOf body

/-- The number of nodes of some items. -/
def countOf : List Item → Nat
  | [] => 0
  | item :: items => item.count + countOf items

end

theorem rowEntry_length (depth : Nat) (kind : NodeKind) (row : List Token) :
    (rowEntry depth kind row).length = rowCount row := by
  cases row <;> rfl

mutual

/-- An item has as many entries as nodes. -/
theorem entries_length (depth : Nat) : (item : Item) → (item.entries depth).length = item.count
  | .leaf kind tokens => rowEntry_length depth kind.nodeKind tokens
  | .block header _ body _ => by
    simp only [Item.entries, Item.count, List.length_cons, List.length_append, rowEntry_length,
      entriesOf_length (depth + 1) body]
    omega

/-- Items have as many entries as nodes. -/
theorem entriesOf_length (depth : Nat) :
    (items : List Item) → (entriesOf depth items).length = countOf items
  | [] => rfl
  | item :: items => by
    simp only [entriesOf, countOf, List.length_append, entries_length depth item,
      entriesOf_length depth items]

end

/-- Nodes of items one behind the other add up. -/
theorem countOf_append (first second : List Item) :
    countOf (first ++ second) = countOf first + countOf second := by
  induction first with
  | nil => simp [countOf]
  | cons item first ih =>
    simp only [List.cons_append, countOf, ih]
    omega

/-- Outlines that are alike have as many nodes. -/
theorem Likeness.Items.countOf_eq {likeness : Likeness} {items others : List Item}
    (h : likeness.Items items others) : countOf others = countOf items := by
  rw [← entriesOf_length 0, ← entriesOf_length 0, h.entriesOf_eq]

/-- The nodes of a block that is open, of its header, and of the items before it. -/
def OpenBlock.count (block : OpenBlock) : Nat :=
  countOf block.before.reverse + (1 + rowCount block.header)

namespace Draft

/-- The number of nodes that a draft will have if no further token comes. -/
def count (draft : Draft) : Nat :=
  (draft.blocks.map OpenBlock.count).sum +
    (countOf draft.items.reverse + rowCount draft.statement.reverse)

/-- Finishing a statement makes one node of it. -/
theorem finish_items_count (draft : Draft) :
    countOf draft.finish.items.reverse =
      countOf draft.items.reverse + rowCount draft.statement.reverse := by
  cases hstatement : draft.statement with
  | nil => simp [finish_of_statement_nil hstatement]
  | cons last earlier =>
    simp only [finish, hstatement, List.reverse_cons, countOf_append, countOf, Item.count,
      rowCount_snoc, Nat.add_zero]

theorem finish_count (draft : Draft) : draft.finish.count = draft.count := by
  rw [count, finish_items_count, finish_blocks, finish_statement, count]
  rfl

/-- Drafts that are alike have as many nodes. -/
theorem count_eq {likeness : Likeness} {draft other : Draft} (h : likeness.Drafts draft other) :
    other.count = draft.count := by
  have hrow : ∀ {row otherRow : List Token}, likeness.Rows row otherRow →
      rowCount otherRow = rowCount row := by
    intro row otherRow hrow
    have hempty := hrow.empty
    cases row <;> cases otherRow <;> simp_all [rowCount]
  have hblocks : other.blocks.map OpenBlock.count = draft.blocks.map OpenBlock.count := by
    have hall := h.blocks
    generalize draft.blocks = blocks at hall
    generalize other.blocks = otherBlocks at hall
    induction hall with
    | nil => rfl
    | cons hblock _ ih =>
      rw [List.map_cons, List.map_cons, ih, OpenBlock.count, OpenBlock.count,
        hblock.before.countOf_eq, hrow hblock.header]
  rw [count, count, hblocks, h.items.countOf_eq, hrow h.statement]

/-- One draft has one node more than another, and both have a statement at hand or neither has. -/
structure OneMore (draft other : Draft) : Prop where
  /-- There is a statement in both drafts or in neither. -/
  statement : other.statement = [] ↔ draft.statement = []
  /-- The other draft has one node more. -/
  count : other.count = draft.count + 1

/-- A draft keeps one node more than another by the same move. -/
theorem OneMore.parallel {draft other next otherNext : Draft} {token twin : Token}
    (h : OneMore draft other) (hmove : Parallel draft other token twin next otherNext) :
    OneMore next otherNext := by
  have hrow : rowCount other.statement.reverse = rowCount draft.statement.reverse := by
    have hempty := h.statement
    cases hstatement : draft.statement.reverse <;> cases hother : other.statement.reverse <;>
      simp_all [rowCount]
  have hcount := h.count
  unfold Draft.count at hcount
  cases hmove with
  | separates _ =>
    refine ⟨by simp, ?_⟩
    rw [finish_count, finish_count, h.count]
  | joins brackets otherBrackets _ =>
    refine ⟨by simp [take], ?_⟩
    simp only [Draft.count, take, List.reverse_cons, rowCount_snoc]
    omega
  | enters _ =>
    refine ⟨by simp, ?_⟩
    simp only [Draft.count, List.map_cons, List.sum_cons, OpenBlock.count, List.reverse_nil,
      countOf, rowCount_nil]
    omega
  | leaves around otherAround outer otherOuter _ hblocks hotherBlocks =>
    refine ⟨by simp, ?_⟩
    rw [hblocks, hotherBlocks] at hcount
    simp only [List.map_cons, List.sum_cons, OpenBlock.count] at hcount
    simp only [Draft.count, List.reverse_cons, countOf_append, countOf, Item.count,
      finish_items_count, List.reverse_nil, rowCount_nil]
    omega

end Draft

end CorpusFacts.Script

/-! ## The draft at a second line break -/

namespace CorpusFacts.Script

/-- Tokens correspond if they are the same but for their places. -/
def sameWord : Likeness where
  like token twin := twin.kind = token.kind ∧ twin.text = token.text
  kind_eq _ _ h := h.1
  text_eq _ _ h := h.2

/-- A row of tokens corresponds to itself. -/
theorem Twins.same (last : Option Token) (tokens : List Token) :
    Twins sameWord.like last last tokens tokens := by
  induction tokens generalizing last with
  | nil => exact .nil
  | cons token tokens ih =>
    refine .cons ⟨rfl, rfl⟩ ?_ (ih _)
    intro mark _ before hbefore other hother
    obtain rfl : before = other := Option.some.inj (hbefore.symm.trans hother)
    rfl

namespace Draft

theorem finish_finish (draft : Draft) : draft.finish.finish = draft.finish :=
  finish_of_statement_nil (finish_statement draft)

/-- Where neither the statement at hand nor what follows goes on, the statement can be finished
before the next token as well as by it. -/
theorem outline_finish {draft : Draft} {rest : List Token} (houtside : draft.brackets = [])
    (hmore : expectsMore draft.statement = false) (hgoes : goesOn rest = false)
    (hstarts : startsStatement rest = false) : draft.finish.outline rest = draft.outline rest := by
  cases rest with
  | nil => simp only [outline, close, finish_brackets, finish_blocks, finish_finish]
  | cons token rest =>
    have hstep : draft.finish.step token rest = draft.step token rest := by
      cases hkind : token.kind with
      | newline =>
        rw [goesOn_newline hkind] at hgoes
        rw [step_newline hkind houtside, step_newline hkind (by simpa using houtside)]
        simp [continues, hmore, hgoes, finish_finish]
      | semicolon => simp [step, hkind, houtside, finish_finish]
      | closing bracket => simp [step, hkind, houtside, finish_finish]
      | _ => simp [startsStatement, hkind] at hstarts
    rw [outline, outline, hstep]

variable {last otherLast : Option Token} {draft other : Draft} {newline extra : Token}
  {rest others : List Token}

/-- Where the statements at hand go on behind two line breaks in one draft and behind one of them in
the other, the drafts are still in step and alike. -/
theorem join_second_break (hlock : Lockstep last otherLast draft other)
    (halike : sameWord.Drafts draft other) (hnewline : newline.kind = .newline)
    (hextra : extra.kind = .newline) (hne : draft.statement ≠ []) :
    Lockstep (some newline) (some extra) (draft.take newline) ((other.take newline).take extra) ∧
      sameWord.Drafts (draft.take newline) ((other.take newline).take extra) := by
  have hother : other.statement ≠ [] := fun hnil => hne (hlock.statement_nil.mp hnil)
  constructor
  · refine ⟨by simp [take, hnewline, hextra], ?_, by simp [take], by simp [take], hlock.brackets,
      by simp [take], hlock.blocks⟩
    simp only [take, expectsMore_of_plain (newline_plain hnewline),
      expectsMore_of_plain (newline_plain hextra)]
  · refine ⟨halike.blocks, halike.items, ?_⟩
    have hrow := halike.statement.snoc (show sameWord.like newline newline from ⟨rfl, rfl⟩)
      (by simp [hne])
    have hlong : 2 ≤ (other.statement.reverse ++ [newline]).length := by
      have := List.length_pos_of_ne_nil hother
      simp only [List.length_append, List.length_reverse, List.length_singleton]
      omega
    simpa [take] using hrow.snoc_newline hextra hlong

/-- Finished drafts are in step and alike, if the drafts are. -/
theorem finish_alike (hlock : Lockstep last otherLast draft other)
    (halike : sameWord.Drafts draft other) (houtside : draft.brackets = [])
    (newLast newOther : Option Token) :
    Lockstep newLast newOther draft.finish other.finish ∧
      sameWord.Drafts draft.finish other.finish := by
  have hother := hlock.brackets_nil.mpr houtside
  refine ⟨.of_statement_nil (by simp) (by simp) (by simpa using houtside) (by simpa using hother)
    (by simpa using hlock.blocks), by simpa using halike.blocks, ?_, ?_⟩
  · exact halike.finish
  · simpa using Likeness.Rows.nil

/-- Outside of brackets a line break joins the statement that it continues, and ends any other. -/
theorem outline_newline (hnewline : newline.kind = .newline) (houtside : draft.brackets = []) :
    draft.outline (newline :: rest) =
      (if draft.continues rest = true then draft.take newline else draft.finish).outline rest := by
  rw [outline, step_newline hnewline houtside]

/-- Inside of brackets a line break joins the statement at hand. -/
theorem outline_newline_inside (hnewline : newline.kind = .newline)
    (hinside : draft.brackets ≠ []) :
    draft.outline (newline :: rest) = (draft.take newline).outline rest := by
  rw [outline, step_separator_inside (by simp [hnewline]) hinside]

/-- Of two drafts in step one has one node more; then the outlines that they lead to do, too. -/
theorem OneMore.outline {like : Token → Token → Prop} (h : OneMore draft other)
    (hlock : Lockstep last otherLast draft other)
    (hkind : ∀ token twin, like token twin → twin.kind = token.kind)
    (htwins : Twins like last otherLast rest others) {items : List Item}
    (hitems : draft.outline rest = .ok items) :
    ∃ otherItems, other.outline others = .ok otherItems ∧
      countOf otherItems = countOf items + 1 := by
  rw [← List.append_nil rest] at hitems
  have hgoes : goesOn [] = goesOn [] := rfl
  obtain ⟨next, otherNext, _, _, hnext, hother, hlock, hmore⟩ :=
    hlock.run (fun _ => OneMore) hkind (fun _ h _ => OneMore.parallel h) [] htwins hgoes h hitems
  have hclose := hlock.close hnext
  obtain ⟨_, hblocks, rfl⟩ := close_eq_ok_iff.mp hnext
  obtain ⟨_, hotherBlocks, _⟩ := close_eq_ok_iff.mp hclose
  refine ⟨otherNext.finish.items.reverse, ?_, ?_⟩
  · rw [← List.append_nil others, hother]
    exact hclose
  · have hcount := hmore.count
    simp only [Draft.count, hblocks, hotherBlocks, List.map_nil, List.sum_nil] at hcount
    rw [finish_items_count, finish_items_count]
    omega

/-- The draft after a token that can start a statement: the token joins the statement at hand, and
is open in it if it is a bracket. -/
def start (draft : Draft) (token : Token) : Draft :=
  { draft.take token with
    brackets := if token.kind.isBracket then token :: draft.brackets else draft.brackets }

/-- Behind such a token the statement at hand has a node, as it had if there was one. -/
theorem start_count (draft : Draft) (token : Token) :
    (draft.start token).count =
      (draft.blocks.map OpenBlock.count).sum + (countOf draft.items.reverse + 1) := by
  simp only [count, start, take, List.reverse_cons, rowCount_snoc]

/-- A token that can start a statement, and that no statement goes on with behind a line break,
joins the statement at hand or starts one. -/
theorem step_start {token : Token} (hstarts : startsStatement (token :: rest) = true)
    (hgoes : goesOn (token :: rest) = false) : draft.step token rest = .ok (draft.start token) := by
  cases hkind : token.kind with
  | opening bracket =>
    have hcurly : bracket ≠ .curly := by
      rintro rfl
      simp [goesOn_cons, hkind] at hgoes
    cases bracket <;> cases hbrackets : draft.brackets <;> simp_all [step, start, take]
  | newline => simp [startsStatement, hkind] at hstarts
  | semicolon => simp [startsStatement, hkind] at hstarts
  | closing bracket => simp [startsStatement, hkind] at hstarts
  | _ => simp [step, start, take, hkind]

/-- A token that can start a statement makes one more node of it, where the line break before has
ended the statement at hand in one draft only. -/
theorem outline_split {items : List Item} (hlock : Lockstep last otherLast draft other)
    (halike : sameWord.Drafts draft other) (hnewline : newline.kind = .newline)
    (hne : draft.statement ≠ []) (houtside : draft.brackets = []) (hgoes : goesOn rest = false)
    (hstarts : startsStatement rest = true)
    (htail : Twins sameWord.like (some newline) (some extra) rest others)
    (hitems : (draft.take newline).outline rest = .ok items) :
    ∃ otherItems, (other.take newline).finish.outline others = .ok otherItems ∧
      countOf otherItems = countOf items + 1 := by
  have hotherGoes : goesOn others = false := by
    simpa [hgoes] using htail.goesOn_eq sameWord.kind_eq (show goesOn [] = goesOn [] from rfl)
  cases htail with
  | nil => simp [startsStatement] at hstarts
  | @cons _ _ token twin tokens twins hlike htouch htail =>
    have hotherStarts : startsStatement (twin :: twins) = true := by
      simpa only [startsStatement, hlike.1] using hstarts
    have hotherOutside := hlock.brackets_nil.mpr houtside
    rw [outline, step_start hstarts hgoes] at hitems
    rw [outline, step_start hotherStarts hotherGoes]
    have hmore : expectsMore [twin] = expectsMore (token :: newline :: draft.statement) := by
      rw [expectsMore_behind_plain (newline_plain hnewline)]
      simp only [expectsMore, hlike.1]
    have hlater : Lockstep (some token) (some twin) ((draft.take newline).start token)
        ((other.take newline).finish.start twin) := by
      refine ⟨by simp [start, take, hlike.1], ?_, by simp [start, take], by simp [start, take], ?_,
        by simp [start, take], by simpa [start, take] using hlock.blocks⟩
      · simpa [start, take] using hmore
      · simp only [start, take, finish_brackets, hlike.1, houtside, hotherOutside]
        split <;> simp [hlike.1]
    have hcount : OneMore ((draft.take newline).start token)
        ((other.take newline).finish.start twin) := by
      refine ⟨by simp [start, take], ?_⟩
      have hsame := count_eq halike
      have hrow : ∀ {row : List Token}, row ≠ [] → rowCount row.reverse = 1 := by
        intro row hrow
        obtain ⟨last, earlier, rfl⟩ := List.exists_cons_of_ne_nil hrow
        simp
      have hotherNe : other.statement ≠ [] := fun hnil => hne (hlock.statement_nil.mp hnil)
      rw [count, count, hrow hne, hrow hotherNe] at hsame
      rw [start_count, start_count, finish_items_count, finish_blocks, hrow (by simp [take])]
      change (other.blocks.map _).sum + (countOf other.items.reverse + 1 + 1) =
        (draft.blocks.map _).sum + (countOf draft.items.reverse + 1) + 1
      omega
    exact hcount.outline hlater sameWord.kind_eq htail hitems

/-- Drafts are in step and alike behind a line break that joins the statements at hand. -/
theorem take_alike (hlock : Lockstep last otherLast draft other)
    (halike : sameWord.Drafts draft other) (hnewline : newline.kind = .newline)
    (hne : draft.statement ≠ []) :
    Lockstep (some newline) (some newline) (draft.take newline) (other.take newline) ∧
      sameWord.Drafts (draft.take newline) (other.take newline) := by
  have htouch : TouchAlike last otherLast newline newline :=
    fun mark hmark => (newline_plain hnewline mark hmark).elim
  have hlike : sameWord.like newline newline := ⟨rfl, rfl⟩
  exact ⟨hlock.take rfl htouch hlock.brackets, halike.parallel hlike
    (.joins draft.brackets other.brackets fun hnil => (hne hnil).elim)⟩

/-- Inside of brackets two line breaks join the statements at hand as well as one. -/
theorem second_break_inside {items : List Item} (hlock : Lockstep last otherLast draft other)
    (halike : sameWord.Drafts draft other) (hnewline : newline.kind = .newline)
    (hextra : extra.kind = .newline) (hinside : draft.brackets ≠ [])
    (htail : Twins sameWord.like (some newline) (some extra) rest others)
    (hitems : draft.outline (newline :: rest) = .ok items) :
    ∃ otherItems, other.outline (newline :: extra :: others) = .ok otherItems ∧
      sameWord.Items items otherItems := by
  have hne : draft.statement ≠ [] := fun hnil => hinside (hlock.inside hnil)
  have hotherInside : other.brackets ≠ [] := fun hnil => hinside (hlock.brackets_nil.mp hnil)
  rw [outline_newline_inside hnewline hinside] at hitems
  rw [outline_newline_inside hnewline hotherInside,
    outline_newline_inside hextra (show (other.take newline).brackets ≠ [] from hotherInside)]
  obtain ⟨hlater, hlike⟩ := join_second_break hlock halike hnewline hextra hne
  exact hlike.outline hlater htail hitems

/-- Where a line break ends the statements at hand, a second one has nothing to end. -/
theorem second_break_between {items : List Item} (hlock : Lockstep last otherLast draft other)
    (halike : sameWord.Drafts draft other) (hnewline : newline.kind = .newline)
    (hextra : extra.kind = .newline) (houtside : draft.brackets = [])
    (hends : ¬ draft.continues rest = true) (hrest : goesOn others = goesOn rest)
    (htail : Twins sameWord.like (some newline) (some extra) rest others)
    (hitems : draft.outline (newline :: rest) = .ok items) :
    ∃ otherItems, other.outline (newline :: extra :: others) = .ok otherItems ∧
      sameWord.Items items otherItems := by
  have hotherOutside := hlock.brackets_nil.mpr houtside
  have hotherEnds : ¬ other.continues (extra :: others) = true := by
    rwa [hlock.continues_eq ((goesOn_newline hextra others).trans hrest)]
  have hagain : ¬ other.finish.continues others = true := by simp [continues]
  rw [outline_newline hnewline houtside, if_neg hends] at hitems
  rw [outline_newline hnewline hotherOutside, if_neg hotherEnds,
    outline_newline hextra (by simpa using hotherOutside), if_neg hagain, finish_finish]
  obtain ⟨hlater, hlike⟩ := finish_alike hlock halike houtside (some newline) (some extra)
  exact hlike.outline hlater htail hitems

/-- Where a line break joins the statement at hand, a second one joins it only if what follows goes
on, and ends it otherwise. -/
theorem outline_joined (hlock : Lockstep last otherLast draft other)
    (hnewline : newline.kind = .newline) (hextra : extra.kind = .newline)
    (houtside : draft.brackets = []) (hjoins : draft.continues rest = true)
    (hrest : goesOn others = goesOn rest) :
    other.outline (newline :: extra :: others) =
      (if goesOn rest = true then (other.take newline).take extra
        else (other.take newline).finish).outline others := by
  have hotherOutside := hlock.brackets_nil.mpr houtside
  have hotherJoins : other.continues (extra :: others) = true := by
    rwa [hlock.continues_eq ((goesOn_newline hextra others).trans hrest)]
  have hmore : expectsMore (newline :: other.statement) = false :=
    expectsMore_of_plain (newline_plain hnewline) _
  have hagain : (other.take newline).continues others = goesOn rest := by
    simp [continues, take, hrest, hmore]
  rw [outline_newline hnewline hotherOutside, if_pos hotherJoins,
    outline_newline hextra (show (other.take newline).brackets = [] from hotherOutside), hagain]

/-- Where a line break joins the statement at hand and what follows goes on, a second one joins,
too. -/
theorem second_break_joins {items : List Item} (hlock : Lockstep last otherLast draft other)
    (halike : sameWord.Drafts draft other) (hnewline : newline.kind = .newline)
    (hextra : extra.kind = .newline) (hne : draft.statement ≠ [])
    (htail : Twins sameWord.like (some newline) (some extra) rest others)
    (hitems : (draft.take newline).outline rest = .ok items) :
    ∃ otherItems, ((other.take newline).take extra).outline others = .ok otherItems ∧
      sameWord.Items items otherItems := by
  obtain ⟨hlater, hlike⟩ := join_second_break hlock halike hnewline hextra hne
  exact hlike.outline hlater htail hitems

/-- Where a line break joins the statement at hand, but what follows neither goes on nor can start a
statement, it does no harm that a second line break ends the statement. -/
theorem second_break_ends {items : List Item} (hlock : Lockstep last otherLast draft other)
    (halike : sameWord.Drafts draft other) (hnewline : newline.kind = .newline)
    (hne : draft.statement ≠ []) (houtside : draft.brackets = []) (hgoes : goesOn rest = false)
    (hstarts : startsStatement rest = false)
    (htail : Twins sameWord.like (some newline) (some extra) rest others)
    (hitems : (draft.take newline).outline rest = .ok items) :
    ∃ otherItems, (other.take newline).finish.outline others = .ok otherItems ∧
      sameWord.Items items otherItems := by
  obtain ⟨hjoined, hlike⟩ := take_alike hlock halike hnewline hne
  obtain ⟨hlater, hlike⟩ := finish_alike hjoined hlike houtside (some newline) (some extra)
  rw [← outline_finish (show (draft.take newline).brackets = [] from houtside)
    (expectsMore_of_plain (newline_plain hnewline) _) hgoes hstarts] at hitems
  exact hlike.outline hlater htail hitems

/-- What a second line break makes of an outline, at the draft reached at the first one. -/
theorem outline_second_break {read : List Token} {items : List Item}
    (hlock : Lockstep last otherLast draft other) (halike : sameWord.Drafts draft other)
    (hreached : Reached read draft) (hnewline : newline.kind = .newline)
    (hextra : extra.kind = .newline)
    (htail : Twins sameWord.like (some newline) (some extra) rest others)
    (hitems : draft.outline (newline :: rest) = .ok items) :
    ∃ otherItems, other.outline (newline :: extra :: others) = .ok otherItems ∧
      if splitsAt read.reverse rest = true then countOf otherItems = countOf items + 1
      else sameWord.Items items otherItems := by
  have hrest : goesOn others = goesOn rest := by
    simpa using htail.goesOn_eq sameWord.kind_eq (show goesOn [] = goesOn [] from rfl)
  have hsplits : splitsAt read.reverse rest = (decide (draft.brackets = []) &&
      expectsMore draft.statement && !goesOn rest && startsStatement rest) := by
    rw [splitsAt, List.reverse_reverse, hreached.more, Bool.eq_iff_iff.mpr
      (hreached.all_curly_iff.trans (decide_eq_true_iff (p := draft.brackets = [])).symm)]
  rw [hsplits]
  by_cases houtside : draft.brackets = []
  · by_cases hjoins : draft.continues rest = true
    · have hne : draft.statement ≠ [] := by
        rintro hnil
        simp [continues, hnil] at hjoins
      have hoperator : expectsMore draft.statement = true ∨ goesOn rest = true := by
        simpa [continues, hne] using hjoins
      rw [outline_newline hnewline houtside, if_pos hjoins] at hitems
      rw [outline_joined hlock hnewline hextra houtside hjoins hrest]
      cases hgoes : goesOn rest with
      | true => simpa using second_break_joins hlock halike hnewline hextra hne htail hitems
      | false =>
        cases hstarts : startsStatement rest with
        | true =>
          simpa [houtside, hoperator.resolve_right (by simp [hgoes])] using
            outline_split hlock halike hnewline hne houtside hgoes hstarts htail hitems
        | false =>
          simpa using
            second_break_ends hlock halike hnewline hne houtside hgoes hstarts htail hitems
    · have hnone : (expectsMore draft.statement && !goesOn rest) = false := by
        cases hstatement : draft.statement with
        | nil => rfl
        | cons last earlier => simp_all [continues]
      rw [Bool.and_assoc (decide _), hnone]
      simpa using
        second_break_between hlock halike hnewline hextra houtside hjoins hrest htail hitems
  · simpa [houtside] using
      second_break_inside hlock halike hnewline hextra houtside htail hitems

end Draft

/-- A second line break leaves the outline of a script as it is; only where it splits a statement
there is one node more. -/
theorem outline_newline_newline {before rest others : List Token} {newline extra : Token}
    {items : List Item} (hnewline : newline.kind = .newline) (hextra : extra.kind = .newline)
    (htail : Twins sameWord.like (some newline) (some extra) rest others)
    (hitems : outline (before ++ newline :: rest) = .ok items) :
    ∃ otherItems, outline (before ++ newline :: extra :: others) = .ok otherItems ∧
      if splitsAt before rest = true then countOf otherItems = countOf items + 1
      else sameWord.Items items otherItems := by
  have hrest : Draft.goesOn others = Draft.goesOn rest := by
    simpa using htail.goesOn_eq sameWord.kind_eq (show Draft.goesOn [] = Draft.goesOn [] from rfl)
  have hgoes : Draft.goesOn (newline :: extra :: others) = Draft.goesOn (newline :: rest) := by
    rw [goesOn_newline hnewline, goesOn_newline hextra, goesOn_newline hnewline, hrest]
  obtain ⟨next, otherNext, _, _, hnext, hother, hlock, halike, hreached⟩ :=
    (Draft.empty_lockstep none none).run
      (fun read draft other => sameWord.Drafts draft other ∧ Draft.Reached read draft)
      sameWord.kind_eq
      (fun hlike h hmove hparallel => ⟨h.1.parallel hlike hparallel, h.2.moves hmove⟩) []
      (Twins.same none before) hgoes ⟨.empty, .empty⟩ hitems
  rw [List.append_nil] at hreached
  have hresult := Draft.outline_second_break hlock halike hreached hnewline hextra htail hnext
  rwa [List.reverse_reverse, ← hother] at hresult

end CorpusFacts.Script
