import CorpusFacts.Proofs.Script.Moves

/-!
# Two outlines in parallel

Two rows of tokens of the same kinds are read side by side. As long as the statements at hand end
alike and what follows a line break goes on alike, both drafts change in the same way. So a property
of two drafts that is kept by every pair of moves holds after any number of tokens.
-/

namespace CorpusFacts.Script

/-- Whether a token starts where another one ends is the same in two rows; `last` and `otherLast`
are the tokens read before. It matters for marks only. -/
def TouchAlike (last otherLast : Option Token) (token twin : Token) : Prop :=
  ∀ mark, token.kind = .punct mark → ∀ before ∈ last, ∀ otherBefore ∈ otherLast,
    (otherBefore.stop == twin.start) = (before.stop == token.start)

/-- Two rows of tokens touch what stands before them alike: both of the tokens before end where the
rows start, or neither does, and they end nowhere behind that. -/
structure TouchesAlike (last otherLast : Option Token) (start otherStart : Nat) : Prop where
  /-- The token before the first row does not reach into it. -/
  within : ∀ token ∈ last, token.stop ≤ start
  /-- The token before the second row does not reach into it. -/
  otherWithin : ∀ token ∈ otherLast, token.stop ≤ otherStart
  /-- Both end where the rows start or neither does. -/
  touch : ∀ token ∈ last, ∀ other ∈ otherLast, (other.stop = otherStart ↔ token.stop = start)

/-- Right behind two tokens, both rows touch them. -/
theorem TouchesAlike.behind (token other : Token) :
    TouchesAlike (some token) (some other) token.stop other.stop := by
  refine ⟨?_, ?_, ?_⟩
  · rintro _ ⟨⟩
    exact Nat.le_refl _
  · rintro _ ⟨⟩
    exact Nat.le_refl _
  · rintro _ ⟨⟩ _ ⟨⟩
    simp

/-- Rows at the same place touch what stands before them alike. -/
theorem TouchesAlike.same {last : Option Token} {start : Nat}
    (h : ∀ token ∈ last, token.stop ≤ start) : TouchesAlike last last start start := by
  refine ⟨h, h, fun token htoken other hother => ?_⟩
  rw [Option.mem_unique htoken hother]

/-- Further behind, if they are so at all, both rows touch what stands before them alike. -/
theorem TouchesAlike.further {last otherLast : Option Token} {start otherStart : Nat}
    (h : TouchesAlike last otherLast start otherStart) {more otherMore : Nat}
    (hmore : more = 0 ↔ otherMore = 0) :
    TouchesAlike last otherLast (start + more) (otherStart + otherMore) := by
  refine ⟨fun token htoken => ?_, fun token htoken => ?_, fun token htoken other hother => ?_⟩
  · have := h.within token htoken
    omega
  · have := h.otherWithin token htoken
    omega
  · have := h.within token htoken
    have := h.otherWithin other hother
    have := h.touch token htoken other hother
    omega

/-- A token touches what stands before it as the other one does. -/
theorem TouchesAlike.touchAlike {last otherLast : Option Token} {token twin : Token}
    (h : TouchesAlike last otherLast token.start twin.start) :
    TouchAlike last otherLast token twin := by
  intro mark _ before hbefore other hother
  rw [Bool.eq_iff_iff, beq_iff_eq, beq_iff_eq]
  exact h.touch before hbefore other hother

/-- Two rows of tokens that correspond one by one, behind two tokens. -/
inductive Twins (like : Token → Token → Prop) :
    (last otherLast : Option Token) → (tokens others : List Token) → Prop
  /-- Nothing is left in either row. -/
  | nil {last otherLast : Option Token} : Twins like last otherLast [] []
  /-- Two tokens correspond, and then those behind them. -/
  | cons {last otherLast : Option Token} {token twin : Token} {tokens others : List Token}
      (hlike : like token twin) (htouch : TouchAlike last otherLast token twin)
      (hrest : Twins like (some token) (some twin) tokens others) :
      Twins like last otherLast (token :: tokens) (twin :: others)

/-- What goes on behind a line break depends on the kind of the first token that is none. -/
theorem goesOn_cons (token : Token) (rest : List Token) :
    Draft.goesOn (token :: rest) =
      if token.kind = .newline then Draft.goesOn rest
      else [.punct '.', .opening .curly, .punct '?', .punct '&', .punct '|'].contains
        token.kind := by
  by_cases hkind : token.kind = .newline
  · simp [Draft.goesOn, hkind]
  · simp [Draft.goesOn, hkind]

/-- Corresponding rows go on alike behind a line break, if what follows them does. -/
theorem Twins.goesOn_eq {like : Token → Token → Prop} {last otherLast : Option Token}
    {tokens others rest otherRest : List Token} (htwins : Twins like last otherLast tokens others)
    (hkind : ∀ token twin, like token twin → twin.kind = token.kind)
    (hrest : Draft.goesOn otherRest = Draft.goesOn rest) :
    Draft.goesOn (others ++ otherRest) = Draft.goesOn (tokens ++ rest) := by
  induction htwins with
  | nil => exact hrest
  | cons hlike _ _ ih =>
    rw [List.cons_append, List.cons_append, goesOn_cons, goesOn_cons, hkind _ _ hlike, ih]

/-- Corresponding rows correspond the other way round. -/
theorem Twins.flip {like : Token → Token → Prop} {last otherLast : Option Token}
    {tokens others : List Token} (hkind : ∀ token twin, like token twin → twin.kind = token.kind)
    (h : Twins like last otherLast tokens others) :
    Twins (fun twin token => like token twin) otherLast last others tokens := by
  induction h with
  | nil => exact .nil
  | cons hlike htouch _ ih =>
    refine .cons hlike (fun mark hmark before hbefore other hother => ?_) ih
    exact (htouch mark ((hkind _ _ hlike).symm.trans hmark) other hother before hbefore).symm

namespace Draft

/-- Statements go on alike behind a line break, if their last tokens are of the same kinds and touch
alike. -/
theorem expectsMore_cons {token twin : Token} {statement other : List Token}
    (hkind : twin.kind = token.kind)
    (hends : other.head?.map (·.kind) = statement.head?.map (·.kind))
    (htouch : TouchAlike statement.head? other.head? token twin) :
    expectsMore (twin :: other) = expectsMore (token :: statement) := by
  cases statement with
  | nil =>
    obtain rfl : other = [] := by cases other <;> simp_all
    simp only [expectsMore, hkind]
  | cons before earlier =>
    cases other with
    | nil => simp at hends
    | cons otherBefore otherEarlier =>
      have hbefore : otherBefore.kind = before.kind := by simpa using hends
      cases hmark : token.kind with
      | punct mark =>
        have htouches := htouch mark hmark before rfl otherBefore rfl
        simp only [expectsMore, hkind, hmark, hbefore, htouches]
      | _ => simp only [expectsMore, hkind, hmark]

/-- Two drafts at which a token of one kind makes the same move; `last` and `otherLast` are the
tokens read last. -/
structure Lockstep (last otherLast : Option Token) (draft other : Draft) : Prop where
  /-- The statements at hand end with tokens of one kind, or there is none in either. -/
  ends : other.statement.head?.map (·.kind) = draft.statement.head?.map (·.kind)
  /-- Both statements go on behind a line break because of how they end, or neither does. -/
  more : expectsMore other.statement = expectsMore draft.statement
  /-- A statement at hand ends with the token read last. -/
  last : ∀ token ∈ draft.statement.head?, last = some token
  /-- The other statement at hand ends with the other token read last. -/
  otherLast : ∀ token ∈ other.statement.head?, otherLast = some token
  /-- The open brackets are of the same kinds. -/
  brackets : other.brackets.map (·.kind) = draft.brackets.map (·.kind)
  /-- Brackets are open in a statement only. -/
  inside : draft.statement = [] → draft.brackets = []
  /-- As many blocks are open. -/
  blocks : other.blocks.length = draft.blocks.length

theorem empty_lockstep (last otherLast : Option Token) : Lockstep last otherLast empty empty :=
  ⟨rfl, rfl, by simp [empty], by simp [empty], rfl, fun _ => rfl, rfl⟩

/-- What one token and its counterpart make of two drafts by the same move. -/
inductive Parallel (draft other : Draft) (token twin : Token) : (next otherNext : Draft) → Prop
  /-- The statements at hand are finished by a separator. -/
  | separates (hseparator : token.kind.isSeparator = true) :
      Parallel draft other token twin draft.finish other.finish
  /-- The tokens join the statements at hand, whatever brackets are open then. -/
  | joins (brackets otherBrackets : List Token)
      (hstarts : draft.statement = [] → token.kind.isSeparator = false) :
      Parallel draft other token twin { draft.take token with brackets := brackets }
        { other.take twin with brackets := otherBrackets }
  /-- Blocks are opened. -/
  | enters (hbrace : token.kind = .opening .curly) :
      Parallel draft other token twin
        ⟨⟨draft.statement.reverse, token, draft.items⟩ :: draft.blocks, [], [], []⟩
        ⟨⟨other.statement.reverse, twin, other.items⟩ :: other.blocks, [], [], []⟩
  /-- Blocks are closed. -/
  | leaves (around otherAround : OpenBlock) (outer otherOuter : List OpenBlock)
      (hbrace : token.kind = .closing .curly) (hblocks : draft.blocks = around :: outer)
      (hotherBlocks : other.blocks = otherAround :: otherOuter) :
      Parallel draft other token twin
        ⟨outer, .block around.header around.opening draft.finish.items.reverse token ::
          around.before, [], []⟩
        ⟨otherOuter, .block otherAround.header otherAround.opening other.finish.items.reverse
          twin :: otherAround.before, [], []⟩

namespace Lockstep

variable {last otherLast : Option Token} {draft other : Draft}

/-- Either both drafts have a statement at hand or neither has. -/
theorem statement_nil (h : Lockstep last otherLast draft other) :
    other.statement = [] ↔ draft.statement = [] := by
  have hends := h.ends
  cases hstatement : draft.statement <;> cases hother : other.statement <;> simp_all

/-- Either both drafts have brackets open or neither has. -/
theorem brackets_nil (h : Lockstep last otherLast draft other) :
    other.brackets = [] ↔ draft.brackets = [] := by
  rw [← List.map_eq_nil_iff (f := (·.kind)), h.brackets, List.map_eq_nil_iff]

/-- Both statements go on behind a line break or neither does. -/
theorem continues_eq (h : Lockstep last otherLast draft other) {rest otherRest : List Token}
    (hrest : goesOn otherRest = goesOn rest) :
    other.continues otherRest = draft.continues rest := by
  have hempty : other.statement.isEmpty = draft.statement.isEmpty := by
    rw [Bool.eq_iff_iff, List.isEmpty_iff, List.isEmpty_iff]
    exact h.statement_nil
  simp only [continues, hempty, h.more, hrest]

/-- The drafts stay in step when two tokens of one kind join the statements at hand. -/
theorem take (h : Lockstep last otherLast draft other) {token twin : Token}
    (hkind : twin.kind = token.kind) (htouch : TouchAlike last otherLast token twin)
    {brackets otherBrackets : List Token}
    (hbrackets : otherBrackets.map (·.kind) = brackets.map (·.kind)) :
    Lockstep (some token) (some twin) { draft.take token with brackets := brackets }
      { other.take twin with brackets := otherBrackets } := by
  refine ⟨by simp [Draft.take, hkind], ?_, by simp [Draft.take], by simp [Draft.take], hbrackets,
    by simp [Draft.take], h.blocks⟩
  refine expectsMore_cons hkind h.ends ?_
  intro mark hmark before hbefore otherBefore hotherBefore
  exact htouch mark hmark before (h.last before hbefore) otherBefore
    (h.otherLast otherBefore hotherBefore)

/-- Drafts without a statement at hand are in step, if as many blocks are open. -/
theorem of_statement_nil {draft other : Draft} (hstatement : draft.statement = [])
    (hother : other.statement = []) (hbrackets : draft.brackets = [])
    (hotherBrackets : other.brackets = []) (hblocks : other.blocks.length = draft.blocks.length) :
    Lockstep last otherLast draft other :=
  ⟨by rw [hstatement, hother], by rw [hstatement, hother], by simp [hstatement], by simp [hother],
    by rw [hbrackets, hotherBrackets], fun _ => hbrackets, hblocks⟩

/-- Where one draft makes a move, the other one makes the same, and both stay in step. -/
theorem moves (h : Lockstep last otherLast draft other) {token twin : Token}
    {rest otherRest : List Token} {next : Draft} (hkind : twin.kind = token.kind)
    (htouch : TouchAlike last otherLast token twin) (hrest : goesOn otherRest = goesOn rest)
    (hmove : draft.Moves token rest next) :
    ∃ otherNext, other.Moves twin otherRest otherNext ∧
      Lockstep (some token) (some twin) next otherNext ∧
      Parallel draft other token twin next otherNext := by
  cases hmove with
  | separates hseparator houtside hends =>
    have hother := h.brackets_nil.mpr houtside
    refine ⟨other.finish, .separates (by rwa [hkind]) hother ?_, ?_, .separates hseparator⟩
    · intro hnewline
      rw [h.continues_eq hrest]
      exact hends (hkind ▸ hnewline)
    · exact of_statement_nil (by simp) (by simp) (by simpa using houtside) (by simpa using hother)
        (by simpa using h.blocks)
  | joins hplain hstays =>
    refine ⟨other.take twin, .joins (by rwa [hkind]) ?_,
      h.take hkind htouch h.brackets, .joins draft.brackets other.brackets ?_⟩
    · intro hseparator houtside
      rw [hkind] at hseparator ⊢
      rw [h.continues_eq hrest]
      exact hstays hseparator (h.brackets_nil.mp houtside)
    · intro hnil
      by_contra hseparator
      have hgoes := (hstays (by simpa using hseparator) (h.inside hnil)).2
      simp [continues, hnil] at hgoes
  | enters hbrace houtside =>
    refine ⟨_, .enters (by rwa [hkind]) (h.brackets_nil.mpr houtside), ?_, .enters hbrace⟩
    exact of_statement_nil rfl rfl rfl rfl (by simp [h.blocks])
  | opens bracket hopens hinside =>
    refine ⟨_, .opens bracket (by rwa [hkind]) ?_, h.take hkind htouch ?_, .joins _ _ ?_⟩
    · exact fun hcurly hnil => hinside hcurly (h.brackets_nil.mp hnil)
    · rw [List.map_cons, List.map_cons, hkind, h.brackets]
    · simp [hopens]
  | closes bracket innermost outer hcloses hbrackets hmatch =>
    have hothers := h.brackets
    rw [hbrackets, List.map_cons] at hothers
    obtain ⟨otherInnermost, otherOuter, hsplit, hinnermost, houter⟩ :=
      List.map_eq_cons_iff.mp hothers
    refine ⟨_, .closes bracket otherInnermost otherOuter (by rwa [hkind]) hsplit
      (by rwa [hinnermost]), h.take hkind htouch houter, .joins _ _ ?_⟩
    simp [hcloses]
  | leaves around outer hbrace houtside hblocks =>
    have hlength := h.blocks
    rw [hblocks, List.length_cons] at hlength
    obtain ⟨otherAround, otherOuter, hsplit⟩ := List.exists_cons_of_length_eq_add_one hlength
    rw [hsplit, List.length_cons] at hlength
    refine ⟨_, .leaves otherAround otherOuter (by rwa [hkind]) (h.brackets_nil.mpr houtside) hsplit,
      ?_, .leaves around otherAround outer otherOuter hbrace hblocks hsplit⟩
    exact of_statement_nil rfl rfl rfl rfl (by simpa using hlength)

/-- Drafts in step stay in step over corresponding rows of tokens, and keep every property that each
pair of moves keeps. The property may depend on the tokens read, last first. -/
theorem run {like : Token → Token → Prop} (keeps : List Token → Draft → Draft → Prop)
    (hkind : ∀ token twin, like token twin → twin.kind = token.kind)
    (hkeeps : ∀ {read rest draft next other otherNext token twin}, like token twin →
      keeps read draft other → draft.Moves token rest next →
      Parallel draft other token twin next otherNext → keeps (token :: read) next otherNext)
    (read : List Token) {tokens others rest otherRest : List Token}
    (htwins : Twins like last otherLast tokens others)
    (hrest : goesOn otherRest = goesOn rest) (h : Lockstep last otherLast draft other)
    (hkept : keeps read draft other) {items : List Item}
    (hitems : draft.outline (tokens ++ rest) = .ok items) :
    ∃ next otherNext last' otherLast', next.outline rest = .ok items ∧
      other.outline (others ++ otherRest) = otherNext.outline otherRest ∧
      Lockstep last' otherLast' next otherNext ∧ keeps (tokens.reverse ++ read) next otherNext := by
  induction htwins generalizing draft other read with
  | nil => exact ⟨draft, other, _, _, hitems, rfl, h, hkept⟩
  | @cons last otherLast token twin tokens others hlike htouch htail ih =>
    rw [List.cons_append, outline] at hitems
    split at hitems
    · rename_i next hstep
      have hmove := step_eq_ok_iff.mp hstep
      obtain ⟨otherNext, hotherMove, hlock, hparallel⟩ := h.moves (hkind _ _ hlike) htouch
        (htail.goesOn_eq hkind hrest) hmove
      obtain ⟨final, otherFinal, last', otherLast', hfinal, hother, hlock, hkept⟩ :=
        ih (token :: read) hlock (hkeeps hlike hkept hmove hparallel) hitems
      refine ⟨final, otherFinal, last', otherLast', hfinal, ?_, hlock, by simpa using hkept⟩
      rw [List.cons_append, outline, step_eq_ok_iff.mpr hotherMove]
      exact hother
    · cases hitems

/-- Where one draft can be closed at the end of a script, so can the other. -/
theorem close (h : Lockstep last otherLast draft other) {items : List Item}
    (hitems : draft.close = .ok items) : other.close = .ok other.finish.items.reverse := by
  obtain ⟨hbrackets, hblocks, _⟩ := close_eq_ok_iff.mp hitems
  have hlength := h.blocks
  rw [hblocks, List.length_nil, List.length_eq_zero_iff] at hlength
  exact close_eq_ok_iff.mpr ⟨h.brackets_nil.mpr hbrackets, hlength, rfl⟩

end Lockstep

end Draft

end CorpusFacts.Script
