import CorpusFacts.Proofs.Script.Parallel
import CorpusFacts.Proofs.Script.Spelling
import Mathlib.Data.List.Forall2

/-!
# Outlines that are alike

Two outlines are alike when they nest the same, and the tokens of corresponding statements and
headers correspond one by one, line breaks aside. What it means for two tokens to correspond is left
open; their kind and text have to be the same.
-/

namespace CorpusFacts.Script

/-- The tokens of a row that are no line breaks. -/
def core (row : List Token) : List Token :=
  row.filter (·.kind != .newline)

@[simp] theorem core_append (first second : List Token) :
    core (first ++ second) = core first ++ core second :=
  List.filter_append ..

/-- A row that starts with no separator keeps its first token. -/
theorem core_cons_of_starts {token : Token} {row : List Token}
    (hstart : StartsPlainly (token :: row)) : core (token :: row) = token :: core row := by
  have hplain := hstart token rfl
  have hkind : token.kind ≠ .newline := by
    rintro hkind
    simp [hkind] at hplain
  simp [core, hkind]

/-- A correspondence between the tokens of two scripts. -/
structure Likeness where
  /-- Whether two tokens correspond. -/
  like : Token → Token → Prop
  /-- Corresponding tokens are of one kind. -/
  kind_eq : ∀ token twin, like token twin → twin.kind = token.kind
  /-- Corresponding tokens have the same characters. -/
  text_eq : ∀ token twin, like token twin → twin.text = token.text

namespace Likeness

variable (likeness : Likeness)

/-- Two statements or headers, or what there is of them so far, are alike. -/
structure Rows (row other : List Token) : Prop where
  /-- Line breaks aside, the tokens correspond one by one. -/
  core : List.Forall₂ likeness.like (core row) (core other)
  /-- The first row starts with no separator. -/
  starts : StartsPlainly row
  /-- Nor does the other one. -/
  otherStarts : StartsPlainly other
  /-- There are tokens in both rows or in neither. -/
  empty : other = [] ↔ row = []
  /-- There is more than one token in both rows or in neither. -/
  several : 2 ≤ other.length ↔ 2 ≤ row.length

/-- Two rows of items are alike. -/
inductive Items : (items others : List Item) → Prop
  /-- Nothing is left in either row. -/
  | nil : Items [] []
  /-- Two statements of one kind are alike, and then the items behind them. -/
  | leaf (kind : LeafKind) {statement other : List Token} {items others : List Item}
      (hne : statement ≠ []) (hrow : likeness.Rows statement other) (hrest : Items items others) :
      Items (.leaf kind statement :: items) (.leaf kind other :: others)
  /-- Two blocks are alike, and then the items behind them. -/
  | block {header otherHeader : List Token} {opening otherOpening closing otherClosing : Token}
      {body otherBody items others : List Item} (hheader : likeness.Rows header otherHeader)
      (hopening : likeness.like opening otherOpening) (hbody : Items body otherBody)
      (hclosing : likeness.like closing otherClosing) (hrest : Items items others) :
      Items (.block header opening body closing :: items)
        (.block otherHeader otherOpening otherBody otherClosing :: others)

/-- Two blocks that are open are alike. -/
structure Blocks (block other : OpenBlock) : Prop where
  /-- Their headers are alike. -/
  header : likeness.Rows block.header other.header
  /-- Their braces correspond. -/
  opening : likeness.like block.opening other.opening
  /-- The items before them are alike. -/
  before : likeness.Items block.before.reverse other.before.reverse

/-- Two drafts are alike. -/
structure Drafts (draft other : Draft) : Prop where
  /-- The open blocks are alike. -/
  blocks : List.Forall₂ likeness.Blocks draft.blocks other.blocks
  /-- The finished items are alike. -/
  items : likeness.Items draft.items.reverse other.items.reverse
  /-- The statements at hand are alike. -/
  statement : likeness.Rows draft.statement.reverse other.statement.reverse

variable {likeness}

namespace Rows

variable {row other : List Token}

theorem nil : likeness.Rows [] [] :=
  ⟨.nil, by simp [StartsPlainly], by simp [StartsPlainly], Iff.rfl, Iff.rfl⟩

/-- The first tokens of rows that are alike correspond. -/
theorem head {first : Token} {rest : List Token} (h : likeness.Rows (first :: rest) other) :
    ∃ otherFirst otherRest, other = otherFirst :: otherRest ∧ likeness.like first otherFirst := by
  have hne : other ≠ [] := fun hnil => by simpa using h.empty.mp hnil
  obtain ⟨otherFirst, otherRest, rfl⟩ := List.exists_cons_of_ne_nil hne
  have hcore := h.core
  rw [core_cons_of_starts h.starts, core_cons_of_starts h.otherStarts] at hcore
  cases hcore with
  | cons hlike _ => exact ⟨otherFirst, otherRest, rfl, hlike⟩

/-- Statements that are alike are for the same. -/
theorem leafKind_eq (h : likeness.Rows row other) :
    Draft.leafKind other = Draft.leafKind row := by
  cases row with
  | nil => rw [h.empty.mpr rfl]
  | cons first rest =>
    have hseveral := h.several
    obtain ⟨otherFirst, otherRest, rfl, hlike⟩ := h.head
    cases rest <;> cases otherRest <;> simp at hseveral
    · rfl
    · simp only [Draft.leafKind, likeness.kind_eq _ _ hlike, likeness.text_eq _ _ hlike]

/-- Rows stay alike when corresponding tokens join them. -/
theorem snoc (h : likeness.Rows row other) {token twin : Token} (hlike : likeness.like token twin)
    (hstarts : row = [] → token.kind.isSeparator = false) :
    likeness.Rows (row ++ [token]) (other ++ [twin]) := by
  have hkind := likeness.kind_eq _ _ hlike
  have hlast : List.Forall₂ likeness.like (Script.core [token]) (Script.core [twin]) := by
    simp only [Script.core, List.filter_cons, hkind]
    split
    · exact .cons hlike .nil
    · exact .nil
  refine ⟨?_, ?_, ?_, by simp, ?_⟩
  · rw [core_append, core_append]
    exact List.rel_append h.core hlast
  · cases row with
    | nil => simpa [StartsPlainly] using hstarts rfl
    | cons first rest => exact h.starts
  · cases other with
    | nil => simpa [StartsPlainly, hkind] using hstarts (h.empty.mp rfl)
    | cons first rest => exact h.otherStarts
  · have hempty := h.empty
    cases row <;> cases other <;> simp_all

/-- A further line break in one of the rows does not matter behind at least two tokens. -/
theorem snoc_newline (h : likeness.Rows row other) {newline : Token}
    (hnewline : newline.kind = .newline) (hseveral : 2 ≤ other.length) :
    likeness.Rows row (other ++ [newline]) := by
  refine ⟨?_, h.starts, ?_, ?_, ?_⟩
  · have hnone : Script.core [newline] = [] := by simp [Script.core, hnewline]
    rw [core_append, hnone, List.append_nil]
    exact h.core
  · cases other with
    | nil => simp at hseveral
    | cons first rest => exact h.otherStarts
  · have hempty := h.empty
    cases other with
    | nil => simp at hseveral
    | cons first rest => simpa using hempty
  · have := h.several.mp hseveral
    simp only [List.length_append, List.length_singleton]
    omega

end Rows

/-- Items that are alike stay so with others behind them that are alike. -/
theorem Items.append {items others later otherLater : List Item} (h : likeness.Items items others)
    (hlater : likeness.Items later otherLater) :
    likeness.Items (items ++ later) (others ++ otherLater) := by
  induction h with
  | nil => exact hlater
  | leaf kind hne hrow _ ih => exact .leaf kind hne hrow ih
  | block hheader hopening hbody hclosing _ _ ih => exact .block hheader hopening hbody hclosing ih

namespace Drafts

variable {draft other : Draft}

theorem empty : likeness.Drafts .empty .empty :=
  ⟨.nil, .nil, Rows.nil⟩

/-- Finishing the statements at hand makes items of them that are alike. -/
theorem finish (h : likeness.Drafts draft other) :
    likeness.Items draft.finish.items.reverse other.finish.items.reverse := by
  have hempty := h.statement.empty
  cases hstatement : draft.statement with
  | nil =>
    have hother : other.statement = [] := by
      rw [hstatement] at hempty
      simpa using hempty
    rw [Draft.finish_of_statement_nil hstatement, Draft.finish_of_statement_nil hother]
    exact h.items
  | cons last earlier =>
    cases hother : other.statement with
    | nil => simp [hstatement, hother] at hempty
    | cons otherLast otherEarlier =>
      have hrow := h.statement
      rw [hstatement, hother] at hrow
      have hleaf := Items.leaf (Draft.leafKind (last :: earlier).reverse) (by simp) hrow .nil
      have hkind := hrow.leafKind_eq
      simp only [List.reverse_cons] at hkind
      simpa [Draft.finish, hstatement, hother, hkind] using h.items.append hleaf

/-- Drafts that are alike stay so by the same move. -/
theorem parallel {next otherNext : Draft} {token twin : Token} (hlike : likeness.like token twin)
    (h : likeness.Drafts draft other)
    (hmove : Draft.Parallel draft other token twin next otherNext) :
    likeness.Drafts next otherNext := by
  cases hmove with
  | separates _ =>
    refine ⟨by simpa using h.blocks, h.finish, ?_⟩
    simpa using Rows.nil
  | joins brackets otherBrackets hstarts =>
    refine ⟨h.blocks, h.items, ?_⟩
    have hrow := h.statement.snoc hlike (fun hnil => hstarts (by simpa using hnil))
    simpa [Draft.take] using hrow
  | enters _ => exact ⟨.cons ⟨h.statement, hlike, h.items⟩ h.blocks, .nil, Rows.nil⟩
  | leaves around otherAround outer otherOuter _ hblocks hotherBlocks =>
    have hall := h.blocks
    rw [hblocks, hotherBlocks] at hall
    cases hall with
    | cons haround houter =>
      refine ⟨houter, ?_, Rows.nil⟩
      have hblock := Items.block haround.header haround.opening h.finish hlike .nil
      simpa using haround.before.append hblock

/-- Drafts in step that are alike lead to outlines that are alike. -/
theorem outline (h : likeness.Drafts draft other) {last otherLast : Option Token}
    {tokens others : List Token} {items : List Item}
    (hlock : Draft.Lockstep last otherLast draft other)
    (htwins : Twins likeness.like last otherLast tokens others)
    (hitems : draft.outline tokens = .ok items) :
    ∃ otherItems, other.outline others = .ok otherItems ∧ likeness.Items items otherItems := by
  rw [← List.append_nil tokens] at hitems
  have hgoes : Draft.goesOn [] = Draft.goesOn [] := rfl
  obtain ⟨next, otherNext, _, _, hnext, hother, hlock, hdrafts⟩ :=
    hlock.run (fun _ => likeness.Drafts) likeness.kind_eq (fun hlike h _ => parallel hlike h) []
      htwins hgoes h hitems
  obtain ⟨_, _, rfl⟩ := Draft.close_eq_ok_iff.mp hnext
  refine ⟨_, ?_, hdrafts.finish⟩
  rw [← List.append_nil others, hother]
  exact hlock.close hnext

end Drafts

/-- Corresponding rows of tokens have outlines that are alike. -/
theorem outline {last otherLast : Option Token} {tokens others : List Token} {items : List Item}
    (htwins : Twins likeness.like last otherLast tokens others)
    (hitems : Script.outline tokens = .ok items) :
    ∃ otherItems, Script.outline others = .ok otherItems ∧ likeness.Items items otherItems :=
  Drafts.empty.outline (Draft.empty_lockstep last otherLast) htwins hitems

end Likeness

end CorpusFacts.Script
