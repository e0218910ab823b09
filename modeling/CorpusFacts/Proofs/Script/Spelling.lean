import CorpusFacts.Proofs.Script.Moves
import CorpusFacts.Script.Tree

/-!
# What an outline is spelled by

An outline is spelled by its tokens in order: those of each statement, those of each block with its
header before and its braces around what is inside, and separators between any of them. No token of
a script is left out of its outline and none is used twice.
-/

namespace CorpusFacts.Script

/-- Whether some tokens, unless there are none, start with something else than a separator. -/
def StartsPlainly (tokens : List Token) : Prop :=
  ∀ token ∈ tokens.head?, token.kind.isSeparator = false

/-- The rows of tokens that spell some items. -/
inductive Spells : List Item → List Token → Prop
  /-- No item needs a token. -/
  | nil : Spells [] []
  /-- A separator may stand between items. -/
  | separator {items : List Item} {token : Token} {tokens : List Token}
      (hseparator : token.kind.isSeparator = true) (hrest : Spells items tokens) :
      Spells items (token :: tokens)
  /-- A statement is spelled by its own tokens. -/
  | leaf {items : List Item} {statement tokens : List Token} (hne : statement ≠ [])
      (hstart : StartsPlainly statement) (hrest : Spells items tokens) :
      Spells (.leaf (Draft.leafKind statement) statement :: items) (statement ++ tokens)
  /-- A block is spelled by its header, and what is inside between its braces. -/
  | block {body items : List Item} {header inner tokens : List Token} {opening closing : Token}
      (hstart : StartsPlainly header) (hopening : opening.kind = .opening .curly)
      (hbody : Spells body inner) (hclosing : closing.kind = .closing .curly)
      (hrest : Spells items tokens) :
      Spells (.block header opening body closing :: items)
        (header ++ opening :: (inner ++ closing :: tokens))

/-- Items one behind the other are spelled by their tokens one behind the other. -/
theorem Spells.append {first second : List Item} {tokens later : List Token}
    (hfirst : Spells first tokens) (hsecond : Spells second later) :
    Spells (first ++ second) (tokens ++ later) := by
  induction hfirst with
  | nil => exact hsecond
  | separator hseparator _ ih => exact .separator hseparator ih
  | leaf hne hstart _ ih =>
    rw [List.cons_append, List.append_assoc]
    exact .leaf hne hstart ih
  | block hstart hopening hbody hclosing _ _ ih =>
    have := Spells.block hstart hopening hbody hclosing ih
    simpa using this

/-- The rows of tokens up to the opening brace of the innermost block. -/
inductive BlocksSpell : List OpenBlock → List Token → Prop
  /-- Outside of all blocks nothing is read. -/
  | nil : BlocksSpell [] []
  /-- Before a block come the blocks around it and the items before it, then its header. -/
  | cons {block : OpenBlock} {outer : List OpenBlock} {tokens between : List Token}
      (houter : BlocksSpell outer tokens) (hbefore : Spells block.before.reverse between)
      (hstart : StartsPlainly block.header) (hopening : block.opening.kind = .opening .curly) :
      BlocksSpell (block :: outer) (tokens ++ (between ++ (block.header ++ [block.opening])))

namespace Draft

/-- A draft is spelled by the tokens read so far: up to the innermost block, the items in it, and
the statement at hand. Brackets are open in a statement only. -/
structure SpelledBy (draft : Draft) (read : List Token) : Prop where
  /-- The tokens are those of the blocks, of the items and of the statement at hand. -/
  spells : ∃ outer inner, BlocksSpell draft.blocks outer ∧ Spells draft.items.reverse inner ∧
    read = outer ++ (inner ++ draft.statement.reverse)
  /-- The statement at hand starts with no separator. -/
  starts : StartsPlainly draft.statement.reverse
  /-- Brackets are open in a statement only. -/
  brackets : draft.statement = [] → draft.brackets = []

theorem empty_spelledBy : empty.SpelledBy [] :=
  ⟨⟨[], [], .nil, .nil, rfl⟩, by simp [StartsPlainly, empty], fun _ => rfl⟩

/-- The tokens of the statement at hand spell the item that it is finished to. -/
theorem finish_spells {draft : Draft} {inner : List Token}
    (hitems : Spells draft.items.reverse inner) (hstart : StartsPlainly draft.statement.reverse) :
    Spells draft.finish.items.reverse (inner ++ draft.statement.reverse) := by
  cases hstatement : draft.statement with
  | nil => simpa [finish_of_statement_nil hstatement] using hitems
  | cons last earlier =>
    rw [hstatement] at hstart
    have hleaf := Spells.leaf (by simp) hstart Spells.nil
    have := hitems.append hleaf
    simpa [finish, hstatement] using this

/-- One more token at the end of a statement changes nothing about its start. -/
theorem startsPlainly_cons {token : Token} {statement : List Token}
    (hstart : StartsPlainly statement.reverse)
    (htoken : statement = [] → token.kind.isSeparator = false) :
    StartsPlainly (token :: statement).reverse := by
  cases hreverse : statement.reverse with
  | nil =>
    have hnil : statement = [] := by simpa using hreverse
    simpa [StartsPlainly, hnil] using htoken hnil
  | cons first rest =>
    rw [hreverse] at hstart
    simpa [StartsPlainly, hreverse] using hstart

/-- Every move is spelled by one more token. -/
theorem Moves.spelledBy {draft next : Draft} {token : Token} {read rest : List Token}
    (hmove : draft.Moves token rest next) (h : draft.SpelledBy read) :
    next.SpelledBy (read ++ [token]) := by
  obtain ⟨⟨outer, inner, houter, hinner, rfl⟩, hstart, hbrackets⟩ := h
  cases hmove with
  | separates hseparator houtside _ =>
    have hitems := (finish_spells hinner hstart).append (.separator hseparator .nil)
    refine ⟨⟨outer, _, by simpa using houter, by simpa using hitems, by simp⟩, ?_, ?_⟩
    · simp [StartsPlainly]
    · simpa using houtside
  | joins hplain hstays =>
    refine ⟨⟨outer, inner, houter, hinner, by simp [take]⟩, startsPlainly_cons hstart ?_,
      by simp [take]⟩
    intro hnil
    by_contra hseparator
    have hgoes := (hstays (by simpa using hseparator) (hbrackets hnil)).2
    simp [continues, hnil] at hgoes
  | enters hbrace _ =>
    exact ⟨⟨_, [], .cons houter hinner hstart hbrace, .nil, by simp⟩, by simp [StartsPlainly],
      fun _ => rfl⟩
  | opens bracket hopens _ =>
    exact ⟨⟨outer, inner, houter, hinner, by simp [take]⟩,
      startsPlainly_cons hstart (by simp [hopens]), by simp [take]⟩
  | closes bracket innermost outer' hcloses _ _ =>
    exact ⟨⟨outer, inner, houter, hinner, by simp [take]⟩,
      startsPlainly_cons hstart (by simp [hcloses]), by simp [take]⟩
  | leaves around outer' hbrace _ hblocks =>
    rw [hblocks] at houter
    cases houter with
    | @cons _ _ tokens between houter hbefore hheader hopening =>
      have hblock := Spells.block hheader hopening (finish_spells hinner hstart) hbrace .nil
      have hitems := hbefore.append hblock
      exact ⟨⟨tokens, _, houter, by simpa using hitems, by simp⟩, by simp [StartsPlainly],
        fun _ => rfl⟩

/-- An outline that is found is spelled by the tokens read before and by those still to be read. -/
theorem spells_of_outline {draft : Draft} {read tokens : List Token} {items : List Item}
    (h : draft.SpelledBy read) (hitems : draft.outline tokens = .ok items) :
    Spells items (read ++ tokens) := by
  induction tokens generalizing draft read with
  | nil =>
    obtain ⟨⟨outer, inner, houter, hinner, rfl⟩, hstart, _⟩ := h
    simp only [outline, close] at hitems
    split at hitems
    · split at hitems <;> cases hitems
    · cases hitems
    · rename_i hblocks
      cases hitems
      rw [hblocks] at houter
      cases houter
      simpa using finish_spells hinner hstart
  | cons token rest ih =>
    simp only [outline] at hitems
    split at hitems
    · rename_i next hstep
      have := ih ((step_eq_ok_iff.mp hstep).spelledBy h) hitems
      simpa using this
    · cases hitems

end Draft

/-- The outline of a script is spelled by the tokens of the script. -/
theorem outline_spells {tokens : List Token} {items : List Item}
    (h : outline tokens = .ok items) : Spells items tokens := by
  simpa using Draft.spells_of_outline Draft.empty_spelledBy h

/-- A script has a tree where it has tokens and these have an outline. -/
theorem tree_eq_ok_iff {dialect : Dialect} {source : List Char} {root : Node} :
    tree dialect source = .ok root ↔
      ∃ found items, tokens dialect source = .ok found ∧ outline found = .ok items ∧
        root = .mk .script none 0 (Text.byteLength source) 1 (nodesOf items) := by
  unfold tree
  cases hfound : tokens dialect source with
  | error ended => simp
  | ok found =>
    cases hitems : outline found with
    | error imbalance => simp [hitems]
    | ok items => simp [hitems, eq_comm]

end CorpusFacts.Script
