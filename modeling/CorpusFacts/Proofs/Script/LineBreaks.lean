import CorpusFacts.Proofs.Script.Balance
import CorpusFacts.Proofs.Script.Skeleton

/-!
# One more line break

A second line break behind a first one leaves an outline as it is, but for one case: outside of
round and square brackets, behind a line that ends with an operator, where the next line starts with
something that could start a statement. There the first line break is passed over because of the
operator before it, and the second one ends the statement.
-/

namespace CorpusFacts.Script

/-- The brackets open behind some tokens, innermost first, when some are open before. -/
def openAfter : (opened tokens : List Token) → List Token
  | opened, [] => opened
  | opened, token :: rest =>
    match token.kind with
    | .opening _ => openAfter (token :: opened) rest
    | .closing _ => openAfter opened.tail rest
    | _ => openAfter opened rest

/-- Whether the first of some tokens can start a statement: it is neither a separator nor a closing
bracket. -/
def startsStatement : (rest : List Token) → Bool
  | [] => false
  | token :: _ =>
    match token.kind with
    | .closing _ => false
    | kind => !kind.isSeparator

/-- Whether a second line break splits the statement that goes on behind a first one: nothing but
blocks is open, only the operator before the line breaks expects more, and what comes next can start
a statement. -/
def splitsAt (before rest : List Token) : Bool :=
  (openAfter [] before).all (·.kind == .opening .curly) && Draft.expectsMore before.reverse &&
    !Draft.goesOn rest && startsStatement rest

/-- The brackets open behind two rows of tokens are those open behind the second one. -/
theorem openAfter_append (opened first second : List Token) :
    openAfter opened (first ++ second) = openAfter (openAfter opened first) second := by
  induction first generalizing opened with
  | nil => rfl
  | cons token first ih =>
    simp only [List.cons_append, openAfter]
    split <;> exact ih _

/-- A row of tokens goes on alike behind a line break with one more line break before it. -/
theorem goesOn_newline {newline : Token} (hnewline : newline.kind = .newline) (rest : List Token) :
    Draft.goesOn (newline :: rest) = Draft.goesOn rest := by
  rw [goesOn_cons, if_pos hnewline]

namespace Draft

/-- Only a mark makes a statement go on. -/
theorem expectsMore_of_plain {token : Token} (hplain : ∀ mark, token.kind ≠ .punct mark)
    (earlier : List Token) : expectsMore (token :: earlier) = false := by
  cases hkind : token.kind with
  | punct mark => exact (hplain mark hkind).elim
  | _ => simp only [expectsMore, hkind]

/-- Behind a token that is no mark a statement goes on as it does alone. -/
theorem expectsMore_behind_plain {token before : Token} (hplain : ∀ mark, before.kind ≠ .punct mark)
    (earlier : List Token) : expectsMore (token :: before :: earlier) = expectsMore [token] := by
  cases hkind : token.kind with
  | punct mark =>
    have hbefore : (before.kind == .punct mark) = false := by simpa using hplain mark
    simp only [expectsMore, hkind, hbefore, Bool.false_and, Bool.not_false]
  | _ => simp only [expectsMore, hkind]

theorem newline_plain {newline : Token} (hnewline : newline.kind = .newline) (mark : Char) :
    newline.kind ≠ .punct mark := by
  simp [hnewline]

/-- What is known of a draft from the tokens read, last first. -/
structure Reached (read : List Token) (draft : Draft) : Prop where
  /-- The open brackets are those of a single stack. -/
  opened : draft.opened = openAfter [] read.reverse
  /-- What opens a block is a brace. -/
  blocks : ∀ block ∈ draft.blocks, block.opening.kind = .opening .curly
  /-- The outermost bracket open in a statement is no brace. -/
  outermost : ∀ token ∈ draft.brackets.getLast?, token.kind ≠ .opening .curly
  /-- A statement at hand ends with the token read last; without one that token is no mark. -/
  ends : ∀ token ∈ read.head?, draft.statement.head? = some token ∨
    draft.statement = [] ∧ ∀ mark, token.kind ≠ .punct mark
  /-- Before the first token there is no statement. -/
  begins : read = [] → draft.statement = []
  /-- The line goes on as the statement at hand does. -/
  more : expectsMore read = expectsMore draft.statement

namespace Reached

variable {read rest : List Token} {draft next : Draft} {token : Token}

theorem empty : Reached [] .empty :=
  ⟨rfl, by simp [Draft.empty], by simp [Draft.empty], by simp, fun _ => rfl, rfl⟩

/-- A token that joins the statement at hand. -/
theorem take (h : Reached read draft) {brackets : List Token}
    (hopened : brackets ++ draft.blocks.map (·.opening) = openAfter [] (token :: read).reverse)
    (houtermost : ∀ token ∈ brackets.getLast?, token.kind ≠ .opening .curly) :
    Reached (token :: read) { draft.take token with brackets := brackets } := by
  refine ⟨hopened, h.blocks, houtermost, fun other hother => Or.inl ?_, by simp, ?_⟩
  · simpa [Draft.take] using hother
  change expectsMore (token :: read) = expectsMore (token :: draft.statement)
  cases read with
  | nil => rw [h.begins rfl]
  | cons before earlier =>
    rcases h.ends before rfl with hbefore | ⟨hnil, hplain⟩
    · obtain ⟨others, hstatement⟩ := List.head?_eq_some_iff.mp hbefore
      rw [hstatement]
      simp only [expectsMore]
    · rw [hnil, expectsMore_behind_plain hplain]

/-- A token behind which there is no statement at hand. -/
theorem of_statement_nil (hopened : next.opened = openAfter [] (token :: read).reverse)
    (hblocks : ∀ block ∈ next.blocks, block.opening.kind = .opening .curly)
    (hbrackets : next.brackets = []) (hstatement : next.statement = [])
    (hplain : ∀ mark, token.kind ≠ .punct mark) : Reached (token :: read) next := by
  refine ⟨hopened, hblocks, by simp [hbrackets], ?_, by simp, ?_⟩
  · intro other hother
    obtain rfl : token = other := by simpa using hother
    exact Or.inr ⟨hstatement, hplain⟩
  · rw [hstatement, expectsMore_of_plain hplain]
    rfl

/-- Every move keeps what is known of the draft. -/
theorem moves (h : Reached read draft) (hmove : draft.Moves token rest next) :
    Reached (token :: read) next := by
  have hopened : openAfter [] (token :: read).reverse = openAfter draft.opened [token] := by
    rw [List.reverse_cons, openAfter_append, h.opened]
  cases hmove with
  | separates hseparator houtside _ =>
    refine of_statement_nil ?_ (by simpa using h.blocks) (by simpa using houtside) (by simp) ?_
    · rw [hopened]
      rcases TokenKind.isSeparator_eq_true_iff.mp hseparator with hkind | hkind <;>
        simp [openAfter, hkind, Draft.opened]
    · rcases TokenKind.isSeparator_eq_true_iff.mp hseparator with hkind | hkind <;> simp [hkind]
  | joins hplain _ =>
    refine h.take ?_ h.outermost
    rw [hopened]
    cases hkind : token.kind <;> simp_all [openAfter, Draft.opened]
  | enters hbrace houtside =>
    refine of_statement_nil ?_ ?_ rfl rfl (by simp [hbrace])
    · rw [hopened]
      simp [openAfter, hbrace, Draft.opened, houtside]
    · intro block hblock
      rcases List.mem_cons.mp hblock with rfl | hblock
      · exact hbrace
      · exact h.blocks block hblock
  | opens bracket hopens hinside =>
    refine h.take ?_ ?_
    · rw [hopened]
      simp [openAfter, hopens, Draft.opened]
    · intro other hother
      cases hbrackets : draft.brackets with
      | nil =>
        obtain rfl : token = other := by simpa [hbrackets] using hother
        rw [hopens]
        exact fun hcurly => hinside (TokenKind.opening.inj hcurly) hbrackets
      | cons innermost outer =>
        rw [hbrackets, List.getLast?_cons_cons, ← hbrackets] at hother
        exact h.outermost other hother
  | closes bracket innermost outer hcloses hbrackets _ =>
    refine h.take ?_ ?_
    · rw [hopened]
      simp [openAfter, hcloses, Draft.opened, hbrackets]
    · intro other hother
      refine h.outermost other ?_
      cases outer with
      | nil => simp at hother
      | cons second others => rwa [hbrackets, List.getLast?_cons_cons]
  | leaves around outer hbrace houtside hblocks =>
    refine of_statement_nil ?_ ?_ rfl rfl (by simp [hbrace])
    · rw [hopened]
      simp [openAfter, hbrace, Draft.opened, houtside, hblocks]
    · intro block hblock
      refine h.blocks block ?_
      rw [hblocks]
      exact List.mem_cons_of_mem _ hblock

/-- Nothing but blocks is open exactly where no bracket is open in the statement at hand. -/
theorem all_curly_iff (h : Reached read draft) :
    (openAfter [] read.reverse).all (·.kind == .opening .curly) = true ↔ draft.brackets = [] := by
  rw [← h.opened, List.all_eq_true]
  constructor
  · intro hall
    by_contra hne
    have hlast := List.getLast?_eq_some_getLast hne
    have hkind := hall (draft.brackets.getLast hne) (by simp [Draft.opened])
    exact h.outermost _ hlast (by simpa using hkind)
  · intro hnil token htoken
    rw [Draft.opened, hnil, List.nil_append] at htoken
    obtain ⟨block, hblock, rfl⟩ := List.mem_map.mp htoken
    simpa using h.blocks block hblock

end Reached

end Draft

end CorpusFacts.Script
