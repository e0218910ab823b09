import CorpusFacts.Proofs.Script.Moves
import CorpusFacts.Syntax.Parse

/-!
# Brackets of a script

A draft keeps the open brackets in two places: those of the statement at hand, and the braces of the
blocks around it. One after the other they are the stack of all brackets that are open, so the
outline of a script accepts exactly the rows of brackets that match, and blames the bracket that a
single stack would blame.
-/

namespace CorpusFacts.Script

/-- Rows of brackets that match: words of the Dyck language over three kinds of brackets. -/
inductive Balanced : List Token → Prop
  /-- No bracket at all. -/
  | nil : Balanced []
  /-- A bracket, a matching row inside of it, and a matching row behind it. -/
  | nest {bracket : Bracket} {opening closing : Token} {inner rest : List Token} :
      opening.kind = .opening bracket → closing.kind = .closing bracket →
      Balanced inner → Balanced rest → Balanced (opening :: (inner ++ closing :: rest))

/-- The row `brackets` leaves the brackets `opened` open, innermost first: each of them is followed
by a matching row, and the outermost one also follows one. -/
inductive LeavesOpen : (opened brackets : List Token) → Prop
  /-- A matching row leaves nothing open. -/
  | nothing {row : List Token} : Balanced row → LeavesOpen [] row
  /-- An opening bracket with a matching row behind it stays open. -/
  | bracket {bracket : Bracket} {opened before row : List Token} {token : Token} :
      LeavesOpen opened before → token.kind = .opening bracket → Balanced row →
      LeavesOpen (token :: opened) (before ++ token :: row)

/-- The bracket that is at fault in a row of brackets. -/
inductive AtFault (brackets : List Token) (token : Token) : Prop
  /-- A closing bracket that does not match the innermost open one. The brackets before it leave
  some brackets open, so all closing ones among them match. -/
  | unmatched {bracket : Bracket} {opened before after : List Token} :
      brackets = before ++ token :: after → LeavesOpen opened before →
      token.kind = .closing bracket → opened.head?.map Token.kind ≠ some (.opening bracket) →
      AtFault brackets token
  /-- The innermost bracket that is open at the end, where every closing one matches. -/
  | unclosed {opened : List Token} : LeavesOpen (token :: opened) brackets → AtFault brackets token

/-- Two matching rows are one. -/
theorem Balanced.append {first second : List Token} (hfirst : Balanced first)
    (hsecond : Balanced second) : Balanced (first ++ second) := by
  induction hfirst with
  | nil => exact hsecond
  | nest hopening hclosing hinner hrest ihinner ihrest =>
    have := Balanced.nest hopening hclosing hinner ihrest
    simpa using this

/-- A matching row behind others leaves open what they leave open. -/
theorem LeavesOpen.append {opened before row : List Token} (hopen : LeavesOpen opened before)
    (hrow : Balanced row) : LeavesOpen opened (before ++ row) := by
  cases hopen with
  | nothing hbefore => exact .nothing (hbefore.append hrow)
  | bracket houter hkind hinner =>
    have := LeavesOpen.bracket houter hkind (hinner.append hrow)
    simpa using this

/-- An opening bracket becomes the innermost open one. -/
theorem LeavesOpen.open {opened before : List Token} {token : Token} {bracket : Bracket}
    (hopen : LeavesOpen opened before) (hkind : token.kind = .opening bracket) :
    LeavesOpen (token :: opened) (before ++ [token]) :=
  .bracket hopen hkind .nil

/-- A closing bracket that matches the innermost open one takes it away. -/
theorem LeavesOpen.close {opened before : List Token} {innermost token : Token} {bracket : Bracket}
    (hopen : LeavesOpen (innermost :: opened) before)
    (hinnermost : innermost.kind = .opening bracket) (hkind : token.kind = .closing bracket) :
    LeavesOpen opened (before ++ [token]) := by
  cases hopen with
  | bracket houter _ hinner =>
    have := houter.append (Balanced.nest hinnermost hkind hinner .nil)
    simpa using this

/-- A row that leaves nothing open matches. -/
theorem LeavesOpen.balanced {brackets : List Token} (hopen : LeavesOpen [] brackets) :
    Balanced brackets := by
  cases hopen with
  | nothing hrow => exact hrow

/-- The bracket that a single stack blames in a row of tokens, when some brackets are open before
it, innermost first. -/
def blamed? : (opened tokens : List Token) → Option Token
  | opened, [] => opened.head?
  | opened, token :: rest =>
    match token.kind with
    | .opening _ => blamed? (token :: opened) rest
    | .closing bracket =>
      match opened with
      | innermost :: outer =>
        if innermost.kind = .opening bracket then blamed? outer rest else some token
      | [] => some token
    | _ => blamed? opened rest

/-- Only brackets count for the one that is blamed. -/
theorem blamed?_brackets (opened tokens : List Token) :
    blamed? opened (tokens.filter (·.kind.isBracket)) = blamed? opened tokens := by
  induction tokens generalizing opened with
  | nil => rfl
  | cons token rest ih =>
    cases hkind : token.kind with
    | opening bracket => simp [blamed?, hkind, ih]
    | closing bracket => cases opened <;> simp [blamed?, hkind, ih]
    | _ => simp [blamed?, hkind, ih]

/-- The stack behind a row of brackets is what the row leaves open. -/
theorem blamed?_append {opened before : List Token} (hopen : LeavesOpen opened before)
    (outer rest : List Token) :
    blamed? outer (before ++ rest) = blamed? (opened ++ outer) rest := by
  have hbalanced : ∀ {row : List Token}, Balanced row → ∀ outer rest : List Token,
      blamed? outer (row ++ rest) = blamed? outer rest := by
    intro row hrow
    induction hrow with
    | nil => intro outer rest; rfl
    | nest hopening hclosing _ _ ihinner ihrest =>
      intro outer rest
      simp [blamed?, hopening, hclosing, ihinner, ihrest]
  induction hopen generalizing outer rest with
  | nothing hrow => exact hbalanced hrow outer rest
  | bracket _ hkind hrow ih =>
    rw [List.append_assoc, List.cons_append, ih]
    simp only [blamed?, hkind]
    exact hbalanced hrow _ rest

/-- What a single stack says of a row is what the row is: it matches where nothing is blamed, and
otherwise the blamed bracket is at fault. -/
theorem blamed?_sound {opened before brackets : List Token} (hopen : LeavesOpen opened before)
    (hbrackets : ∀ token ∈ brackets, token.kind.isBracket = true) :
    match blamed? opened brackets with
    | none => Balanced (before ++ brackets)
    | some token => AtFault (before ++ brackets) token := by
  induction brackets generalizing opened before with
  | nil =>
    cases opened with
    | nil => simpa [blamed?] using hopen.balanced
    | cons innermost outer => simpa [blamed?] using AtFault.unclosed hopen
  | cons token rest ih =>
    have hrest : ∀ token ∈ rest, token.kind.isBracket = true :=
      fun other hother => hbrackets other (List.mem_cons_of_mem _ hother)
    cases hkind : token.kind with
    | opening bracket =>
      simpa [blamed?, hkind] using ih (hopen.open hkind) hrest
    | closing bracket =>
      cases opened with
      | nil => simpa [blamed?, hkind] using AtFault.unmatched rfl hopen hkind (by simp)
      | cons innermost outer =>
        by_cases hmatch : innermost.kind = .opening bracket
        · simpa [blamed?, hkind, hmatch] using ih (hopen.close hmatch hkind) hrest
        · simpa [blamed?, hkind, hmatch] using
            AtFault.unmatched rfl hopen hkind (by simpa using hmatch)
    | _ => simpa [hkind] using hbrackets token (List.mem_cons_self ..)

/-- A single stack blames nothing exactly in the rows that match. -/
theorem blamed?_eq_none_iff {brackets : List Token}
    (hbrackets : ∀ token ∈ brackets, token.kind.isBracket = true) :
    blamed? [] brackets = none ↔ Balanced brackets := by
  constructor
  · intro hnone
    have := blamed?_sound (.nothing .nil) hbrackets
    simpa [hnone] using this
  · intro hrow
    have := blamed?_append (.nothing hrow) [] []
    simpa [blamed?] using this

/-- A single stack blames exactly the bracket at fault. -/
theorem blamed?_eq_some_iff {brackets : List Token} {token : Token}
    (hbrackets : ∀ token ∈ brackets, token.kind.isBracket = true) :
    blamed? [] brackets = some token ↔ AtFault brackets token := by
  constructor
  · intro hsome
    have := blamed?_sound (.nothing .nil) hbrackets
    simpa [hsome] using this
  · rintro (⟨rfl, hopen, hkind, hunmatched⟩ | hopen)
    · rename_i bracket opened before after
      rw [blamed?_append hopen]
      cases opened with
      | nil => simp [blamed?, hkind]
      | cons innermost outer =>
        have hmismatch : innermost.kind ≠ .opening bracket := by simpa using hunmatched
        simp [blamed?, hkind, hmismatch]
    · have := blamed?_append hopen [] []
      simpa [blamed?] using this

namespace Draft

/-- All brackets that are open, innermost first: those of the statement at hand, then the braces of
the blocks around it. -/
def opened (draft : Draft) : List Token :=
  draft.brackets ++ draft.blocks.map (·.opening)

/-- The open brackets of a draft are opening brackets, and blocks are opened by braces. -/
structure IsNested (draft : Draft) : Prop where
  /-- What is open in the statement at hand is an opening bracket. -/
  brackets : ∀ token ∈ draft.brackets, ∃ bracket, token.kind = .opening bracket
  /-- What opens a block is a brace. -/
  blocks : ∀ block ∈ draft.blocks, block.opening.kind = .opening .curly

theorem empty_isNested : empty.IsNested := ⟨by simp [empty], by simp [empty]⟩

/-- Every move keeps blocks and brackets apart. -/
theorem Moves.isNested {draft next : Draft} {token : Token} {rest : List Token}
    (hmove : draft.Moves token rest next) (h : draft.IsNested) : next.IsNested := by
  cases hmove with
  | separates => exact ⟨by simpa using h.brackets, by simpa using h.blocks⟩
  | joins => exact ⟨h.brackets, h.blocks⟩
  | enters hbrace _ =>
    refine ⟨by simp, ?_⟩
    intro block hblock
    rcases List.mem_cons.mp hblock with rfl | hblock
    · exact hbrace
    · exact h.blocks block hblock
  | opens bracket hopens _ =>
    refine ⟨?_, h.blocks⟩
    intro open' hopen
    rcases List.mem_cons.mp hopen with rfl | hopen
    · exact ⟨bracket, hopens⟩
    · exact h.brackets _ hopen
  | closes bracket innermost outer _ hbrackets _ =>
    refine ⟨fun token htoken => h.brackets token ?_, h.blocks⟩
    rw [hbrackets]
    exact List.mem_cons_of_mem _ htoken
  | leaves around outer _ _ hblocks =>
    refine ⟨by simp, fun block hblock => h.blocks block ?_⟩
    rw [hblocks]
    exact List.mem_cons_of_mem _ hblock

/-- A move changes what is open as a single stack does. -/
theorem Moves.blamed? {draft next : Draft} {token : Token} {rest : List Token}
    (hmove : draft.Moves token rest next) (h : draft.IsNested) :
    Script.blamed? draft.opened (token :: rest) = Script.blamed? next.opened rest := by
  cases hmove with
  | separates hseparator _ _ =>
    rcases TokenKind.isSeparator_eq_true_iff.mp hseparator with hkind | hkind <;>
      simp [Script.blamed?, hkind, opened]
  | joins hplain _ =>
    cases hkind : token.kind <;> simp_all [Script.blamed?, opened, take]
  | enters hbrace houtside => simp [Script.blamed?, hbrace, opened, houtside]
  | opens bracket hopens _ => simp [Script.blamed?, hopens, opened, take]
  | closes bracket innermost outer hcloses hbrackets hmatch =>
    simp [Script.blamed?, hcloses, opened, hbrackets, hmatch, take]
  | leaves around outer hbrace houtside hblocks =>
    have hopening : around.opening.kind = .opening .curly :=
      h.blocks around (by rw [hblocks]; exact List.mem_cons_self ..)
    simp [Script.blamed?, hbrace, opened, houtside, hblocks, hopening]

/-- Where a step fails, a single stack blames the same token. -/
theorem blamed?_of_step_eq_error {draft : Draft} {token : Token} {rest : List Token}
    {imbalance : Imbalance} (hstep : draft.step token rest = .error imbalance)
    (h : draft.IsNested) :
    Script.blamed? draft.opened (token :: rest) = some imbalance.token := by
  obtain ⟨rfl, bracket, hkind, hopen⟩ := step_eq_error hstep
  cases hbrackets : draft.brackets with
  | cons innermost outer =>
    rw [hbrackets] at hopen
    simp [Script.blamed?, hkind, opened, hbrackets, hopen]
  | nil =>
    rw [hbrackets] at hopen
    cases hblocks : draft.blocks with
    | nil => simp [Script.blamed?, hkind, opened, hbrackets, hblocks]
    | cons around outer =>
      have hopening : around.opening.kind = .opening .curly :=
        h.blocks around (by rw [hblocks]; exact List.mem_cons_self ..)
      have hcurly : bracket ≠ .curly := fun hcurly => by simp [hblocks] at hopen; exact hopen hcurly
      simp [Script.blamed?, hkind, opened, hbrackets, hblocks, hopening, hcurly.symm]

/-- At the end of a script a draft is closed unless something is open, and then the innermost open
bracket is blamed. -/
theorem close_blamed? {draft : Draft} (h : draft.IsNested) :
    match draft.opened.head? with
    | none => ∃ items, draft.close = .ok items
    | some token => ∃ cause, draft.close = .error ⟨cause, token⟩ := by
  unfold close opened
  cases hbrackets : draft.brackets with
  | cons innermost outer =>
    obtain ⟨bracket, hkind⟩ := h.brackets innermost (by rw [hbrackets]; exact List.mem_cons_self ..)
    simp [hkind]
  | nil => cases hblocks : draft.blocks <;> simp

/-- The outline of a script is found exactly where a single stack blames nothing, and otherwise the
token that it blames is blamed. -/
theorem outline_blamed? {draft : Draft} (h : draft.IsNested) (tokens : List Token) :
    match Script.blamed? draft.opened tokens with
    | none => ∃ items, draft.outline tokens = .ok items
    | some token => ∃ cause, draft.outline tokens = .error ⟨cause, token⟩ := by
  induction tokens generalizing draft with
  | nil => simpa only [Script.blamed?, outline] using close_blamed? h
  | cons token rest ih =>
    cases hstep : draft.step token rest with
    | error imbalance =>
      rw [blamed?_of_step_eq_error hstep h]
      exact ⟨imbalance.cause, by simp [outline, hstep]⟩
    | ok next =>
      have hmove := step_eq_ok_iff.mp hstep
      rw [hmove.blamed? h]
      simpa only [outline, hstep] using ih (hmove.isNested h)

end Draft

/-- The language that a dialect belongs to. -/
def Dialect.language : Dialect → Language
  | kotlin => .kotlin
  | groovy => .groovy

/-- Parsing a script is finding its syntax tree, with the path added to errors. -/
theorem language_tree (dialect : Dialect) (path : Path) (source : List Char) :
    dialect.language.tree path source =
      (tree dialect source).mapError fun (line, cause) => ⟨path, some line, cause⟩ := by
  cases dialect <;> simp only [Dialect.language, Language.tree] <;> split <;>
    simp [*, Except.mapError]

/-- Parsing accepts exactly the scripts with a syntax tree. -/
theorem language_tree_eq_ok_iff {dialect : Dialect} {path : Path} {source : List Char}
    {root : Node} : dialect.language.tree path source = .ok root ↔ tree dialect source = .ok root := by
  rw [language_tree]
  cases tree dialect source <;> simp [Except.mapError]

/-- Of the scripts that can be cut into tokens, parsing accepts exactly those whose brackets match,
and the line of any other error is that of the bracket at fault. -/
theorem parse_accepts_balanced {dialect : Dialect} {source : List Char} {tokens : List Token}
    (path : Path) (htokens : Script.tokens dialect source = .ok tokens) :
    ((∃ root, dialect.language.tree path source = .ok root) ↔
      Balanced (tokens.filter (·.kind.isBracket))) ∧
    ∀ line, (∃ cause, dialect.language.tree path source = .error ⟨path, some line, cause⟩) ↔
      ∃ token, AtFault (tokens.filter (·.kind.isBracket)) token ∧ token.line = line := by
  have hbrackets : ∀ token ∈ tokens.filter (·.kind.isBracket), token.kind.isBracket = true :=
    fun token htoken => (List.mem_filter.mp htoken).2
  have houtline := Draft.outline_blamed? Draft.empty_isNested tokens
  rw [show Draft.empty.opened = [] from rfl, ← blamed?_brackets] at houtline
  rw [← blamed?_eq_none_iff hbrackets, language_tree]
  simp only [← blamed?_eq_some_iff hbrackets]
  cases hblamed : blamed? [] (tokens.filter (·.kind.isBracket)) with
  | none =>
    rw [hblamed] at houtline
    obtain ⟨items, hitems⟩ := houtline
    have htree : tree dialect source =
        .ok (.mk .script none 0 (Text.byteLength source) 1 (nodesOf items)) := by
      simp only [tree, htokens, outline, hitems]
    simp [htree, Except.mapError]
  | some token =>
    rw [hblamed] at houtline
    obtain ⟨cause, hfault⟩ := houtline
    have htree : tree dialect source = .error (token.line, cause) := by
      simp only [tree, htokens, outline, hfault]
    simp [htree, Except.mapError]

/-- A bracket inside of a block is blamed on the line it stands on. -/
theorem parse_blames_second_line :
    ∃ cause, Dialect.kotlin.language.tree ⟨"build.gradle.kts"⟩
      "a \x7b\n f(b]\n\x7d".toList = .error ⟨⟨"build.gradle.kts"⟩, some 2, cause⟩ := by
  have htokens : tokens .kotlin "a \x7b\n f(b]\n\x7d".toList = .ok
      [⟨.word, ['a'], 0, 1⟩, ⟨.opening .curly, ['\x7b'], 2, 1⟩, ⟨.newline, ['\n'], 3, 1⟩,
        ⟨.word, ['f'], 5, 2⟩, ⟨.opening .round, ['('], 6, 2⟩, ⟨.word, ['b'], 7, 2⟩,
        ⟨.closing .square, [']'], 8, 2⟩, ⟨.newline, ['\n'], 9, 2⟩,
        ⟨.closing .curly, ['\x7d'], 10, 3⟩] := by decide +kernel
  have hopen : LeavesOpen [⟨.opening .round, ['('], 6, 2⟩, ⟨.opening .curly, ['\x7b'], 2, 1⟩]
      [⟨.opening .curly, ['\x7b'], 2, 1⟩, ⟨.opening .round, ['('], 6, 2⟩] :=
    ((LeavesOpen.nothing .nil).open rfl).open rfl
  refine ((parse_accepts_balanced _ htokens).2 2).mpr ⟨⟨.closing .square, [']'], 8, 2⟩, ?_, rfl⟩
  exact .unmatched (show _ = _ ++ _ :: [⟨.closing .curly, ['\x7d'], 10, 3⟩] from rfl) hopen rfl
    (by decide)

end CorpusFacts.Script
