import CorpusFacts.Script.Outline
import Mathlib.Data.List.Basic

/-!
# The moves of an outline

One token changes a draft in one of six ways. Every property of outlines is proved over these
moves, so the definition of a step is opened in this file only.
-/

namespace CorpusFacts

namespace TokenKind

/-- Line breaks and semicolons: what stands between statements. -/
def isSeparator : TokenKind → Bool
  | newline => true
  | semicolon => true
  | _ => false

/-- Opening and closing brackets. -/
def isBracket : TokenKind → Bool
  | opening _ => true
  | closing _ => true
  | _ => false

/-- Which kinds are separators. -/
@[simp] theorem isSeparator_kinds :
    word.isSeparator = false ∧ string.isSeparator = false ∧ newline.isSeparator = true ∧
      semicolon.isSeparator = true ∧ (∀ mark, (punct mark).isSeparator = false) ∧
      (∀ bracket, (opening bracket).isSeparator = false) ∧
      ∀ bracket, (closing bracket).isSeparator = false :=
  ⟨rfl, rfl, rfl, rfl, fun _ => rfl, fun _ => rfl, fun _ => rfl⟩

/-- Which kinds are brackets. -/
@[simp] theorem isBracket_kinds :
    word.isBracket = false ∧ string.isBracket = false ∧ newline.isBracket = false ∧
      semicolon.isBracket = false ∧ (∀ mark, (punct mark).isBracket = false) ∧
      (∀ bracket, (opening bracket).isBracket = true) ∧
      ∀ bracket, (closing bracket).isBracket = true :=
  ⟨rfl, rfl, rfl, rfl, fun _ => rfl, fun _ => rfl, fun _ => rfl⟩

/-- A separator is a line break or a semicolon. -/
theorem isSeparator_eq_true_iff {kind : TokenKind} :
    kind.isSeparator = true ↔ kind = .newline ∨ kind = .semicolon := by
  cases kind <;> simp

end TokenKind

namespace Script.Draft

@[simp] theorem finish_blocks (draft : Draft) : draft.finish.blocks = draft.blocks := by
  unfold finish
  split <;> rfl

@[simp] theorem finish_brackets (draft : Draft) : draft.finish.brackets = draft.brackets := by
  unfold finish
  split <;> rfl

@[simp] theorem finish_statement (draft : Draft) : draft.finish.statement = [] := by
  unfold finish
  split <;> simp_all

/-- Without a statement at hand there is nothing to finish. -/
theorem finish_of_statement_nil {draft : Draft} (h : draft.statement = []) :
    draft.finish = draft := by
  simp only [finish, h]

/-- Whether the statement at hand goes on behind a line break, given the tokens behind that. -/
def continues (draft : Draft) (rest : List Token) : Bool :=
  !draft.statement.isEmpty && (expectsMore draft.statement || goesOn rest)

/-- The six ways in which a token changes a draft; `rest` are the tokens behind it. -/
inductive Moves (draft : Draft) (token : Token) (rest : List Token) : Draft → Prop
  /-- Outside of brackets a separator ends the statement at hand, if there is one. -/
  | separates (hseparator : token.kind.isSeparator = true) (houtside : draft.brackets = [])
      (hends : token.kind = .newline → draft.continues rest = false) :
      Moves draft token rest draft.finish
  /-- A token joins the statement at hand, or starts one. A separator does so only inside of
  brackets, or where the statement goes on behind a line break. -/
  | joins (hplain : token.kind.isBracket = false)
      (hstays : token.kind.isSeparator = true → draft.brackets = [] →
        token.kind = .newline ∧ draft.continues rest = true) :
      Moves draft token rest (draft.take token)
  /-- Outside of brackets a brace opens a block, whose header is the statement at hand. -/
  | enters (hbrace : token.kind = .opening .curly) (houtside : draft.brackets = []) :
      Moves draft token rest
        ⟨⟨draft.statement.reverse, token, draft.items⟩ :: draft.blocks, [], [], []⟩
  /-- Any other opening bracket is open in the statement at hand. -/
  | opens (bracket : Bracket) (hopens : token.kind = .opening bracket)
      (hinside : bracket = .curly → draft.brackets ≠ []) :
      Moves draft token rest { draft.take token with brackets := token :: draft.brackets }
  /-- A closing bracket matches the innermost bracket of the statement at hand. -/
  | closes (bracket : Bracket) (innermost : Token) (outer : List Token)
      (hcloses : token.kind = .closing bracket) (hbrackets : draft.brackets = innermost :: outer)
      (hmatch : innermost.kind = .opening bracket) :
      Moves draft token rest { draft.take token with brackets := outer }
  /-- Outside of brackets a brace closes the innermost block. -/
  | leaves (around : OpenBlock) (outer : List OpenBlock) (hbrace : token.kind = .closing .curly)
      (houtside : draft.brackets = []) (hblocks : draft.blocks = around :: outer) :
      Moves draft token rest
        ⟨outer, .block around.header around.opening draft.finish.items.reverse token ::
          around.before, [], []⟩

/-- Outside of brackets a line break joins the statement that it continues, and ends any other. -/
theorem step_newline {draft : Draft} {token : Token} {rest : List Token}
    (hkind : token.kind = .newline) (houtside : draft.brackets = []) :
    draft.step token rest =
      .ok (if draft.continues rest = true then draft.take token else draft.finish) := by
  simp only [step, hkind, houtside, continues]
  by_cases hnil : draft.statement = []
  · simp [hnil, finish_of_statement_nil hnil]
  · by_cases hmore : (expectsMore draft.statement || goesOn rest) = true
    · simp [hnil, hmore]
    · simp [hnil, hmore]

/-- Inside of brackets a separator joins the statement at hand. -/
theorem step_separator_inside {draft : Draft} {token : Token} {rest : List Token}
    (hkind : token.kind.isSeparator = true) (hinside : draft.brackets ≠ []) :
    draft.step token rest = .ok (draft.take token) := by
  obtain ⟨innermost, outer, hbrackets⟩ := List.exists_cons_of_ne_nil hinside
  rcases TokenKind.isSeparator_eq_true_iff.mp hkind with hkind | hkind <;>
    simp only [step, hkind, hbrackets]

/-- An opening bracket that starts no block is open in the statement at hand. -/
theorem step_opening {draft : Draft} {token : Token} {rest : List Token} {bracket : Bracket}
    (hkind : token.kind = .opening bracket) (hinside : bracket = .curly → draft.brackets ≠ []) :
    draft.step token rest =
      .ok { draft.take token with brackets := token :: draft.brackets } := by
  cases bracket <;> cases hbrackets : draft.brackets <;> simp_all [step]

/-- A step succeeds in no way but the six. -/
theorem moves_of_step {draft next : Draft} {token : Token} {rest : List Token}
    (h : draft.step token rest = .ok next) : draft.Moves token rest next := by
  cases hkind : token.kind with
  | newline =>
    by_cases houtside : draft.brackets = []
    · rw [step_newline hkind houtside] at h
      cases h
      split
      · rename_i hgoes
        exact .joins (by simp [hkind]) fun _ _ => ⟨hkind, hgoes⟩
      · rename_i hgoes
        exact .separates (by simp [hkind]) houtside fun _ => by simpa using hgoes
    · rw [step_separator_inside (by simp [hkind]) houtside] at h
      cases h
      exact .joins (by simp [hkind]) fun _ hnil => (houtside hnil).elim
  | semicolon =>
    by_cases houtside : draft.brackets = []
    · simp only [step, hkind, houtside] at h
      cases h
      exact .separates (by simp [hkind]) houtside (by simp [hkind])
    · rw [step_separator_inside (by simp [hkind]) houtside] at h
      cases h
      exact .joins (by simp [hkind]) fun _ hnil => (houtside hnil).elim
  | opening bracket =>
    by_cases hblock : bracket = .curly ∧ draft.brackets = []
    · obtain ⟨rfl, houtside⟩ := hblock
      simp only [step, hkind, houtside] at h
      cases h
      exact .enters hkind houtside
    · have hinside : bracket = .curly → draft.brackets ≠ [] := fun hb hnil => hblock ⟨hb, hnil⟩
      rw [step_opening hkind hinside] at h
      cases h
      exact .opens bracket hkind hinside
  | closing bracket =>
    cases hbrackets : draft.brackets with
    | nil =>
      simp only [step, hkind, hbrackets, finish_blocks] at h
      split at h
      · rename_i around outer hblocks
        cases h
        exact .leaves around outer hkind hbrackets hblocks
      · cases h
    | cons innermost outer =>
      simp only [step, hkind, hbrackets] at h
      split at h
      · rename_i hmatch
        cases h
        exact .closes bracket innermost outer hkind hbrackets (by simpa using hmatch)
      · split at h <;> cases h
  | _ =>
    simp only [step, hkind] at h
    cases h
    exact .joins (by simp [hkind]) (by simp [hkind])

/-- A step succeeds in each of the six ways. -/
theorem Moves.step_eq_ok {draft next : Draft} {token : Token} {rest : List Token}
    (h : draft.Moves token rest next) : draft.step token rest = .ok next := by
  cases h with
  | separates hseparator houtside hends =>
    rcases TokenKind.isSeparator_eq_true_iff.mp hseparator with hkind | hkind
    · rw [step_newline hkind houtside, hends hkind]
      rfl
    · simp only [step, hkind, houtside]
  | joins hplain hstays =>
    by_cases hseparator : token.kind.isSeparator = true
    · by_cases houtside : draft.brackets = []
      · obtain ⟨hkind, hgoes⟩ := hstays hseparator houtside
        rw [step_newline hkind houtside, if_pos hgoes]
      · exact step_separator_inside hseparator houtside
    · cases hkind : token.kind <;> simp_all [step]
  | enters hbrace houtside => simp only [step, hbrace, houtside]
  | opens bracket hopens hinside => exact step_opening hopens hinside
  | closes bracket innermost outer hcloses hbrackets hmatch =>
    simp [step, hcloses, hbrackets, hmatch]
  | leaves around outer hbrace houtside hblocks =>
    simp [step, hbrace, houtside, hblocks]

/-- A step succeeds in exactly the six ways. -/
theorem step_eq_ok_iff {draft next : Draft} {token : Token} {rest : List Token} :
    draft.step token rest = .ok next ↔ draft.Moves token rest next :=
  ⟨moves_of_step, Moves.step_eq_ok⟩

/-- A draft can be closed at the end of a script where nothing is open. -/
theorem close_eq_ok_iff {draft : Draft} {items : List Item} :
    draft.close = .ok items ↔
      draft.brackets = [] ∧ draft.blocks = [] ∧ draft.finish.items.reverse = items := by
  unfold close
  cases hbrackets : draft.brackets with
  | nil => cases hblocks : draft.blocks <;> simp
  | cons innermost outer =>
    constructor
    · intro h
      simp only at h
      split at h <;> cases h
    · rintro ⟨hnil, _⟩
      cases hnil

/-- A step fails at a closing bracket only, where nothing open matches it. -/
theorem step_eq_error {draft : Draft} {token : Token} {rest : List Token} {imbalance : Imbalance}
    (h : draft.step token rest = .error imbalance) :
    imbalance.token = token ∧ ∃ bracket, token.kind = .closing bracket ∧
      match draft.brackets with
      | innermost :: _ => innermost.kind ≠ .opening bracket
      | [] => bracket = .curly → draft.blocks = [] := by
  cases hkind : token.kind with
  | closing bracket =>
    cases hbrackets : draft.brackets with
    | nil =>
      refine ⟨?_, bracket, rfl, ?_⟩
      · cases bracket <;> cases hblocks : draft.blocks <;>
          simp [step, hkind, hbrackets, hblocks] at h <;> exact h ▸ rfl
      · rintro rfl
        cases hblocks : draft.blocks with
        | nil => rfl
        | cons around outer => simp [step, hkind, hbrackets, hblocks] at h
    | cons innermost outer =>
      simp only [step, hkind, hbrackets] at h
      split at h
      · cases h
      · rename_i hmismatch
        refine ⟨?_, bracket, rfl, by simpa using hmismatch⟩
        split at h <;> cases h <;> rfl
  | newline =>
    by_cases houtside : draft.brackets = []
    · rw [step_newline hkind houtside] at h
      cases h
    · rw [step_separator_inside (by simp [hkind]) houtside] at h
      cases h
  | opening bracket =>
    cases bracket <;> cases hbrackets : draft.brackets <;> simp_all [step]
  | _ => cases hbrackets : draft.brackets <;> simp_all [step]

end Script.Draft

end CorpusFacts
