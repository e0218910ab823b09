import CorpusFacts.Syntax.Token

/-!
# The outline of a script

An outline says which tokens of a script form which statement or block. It is built in one pass over
the tokens, with what is open at each point kept aside: the blocks around, the statement at hand,
and the brackets open inside it. A brace outside of every other bracket opens a block, whose header
is the statement so far.
-/

namespace CorpusFacts.Script

/-- What a statement is for. -/
inductive LeafKind where
  /-- Any statement. -/
  | statement
  /-- An import. -/
  | importDirective
  /-- The package of a source. -/
  | packageDirective
  deriving DecidableEq, Repr

/-- A statement or block of a script, by its tokens. -/
inductive Item where
  /-- A statement. -/
  | leaf (kind : LeafKind) (tokens : List Token)
  /-- A block: its header, which may be empty, its braces, and what is between them. -/
  | block (header : List Token) (opening : Token) (body : List Item) (closing : Token)

/-- A bracket that does not match, with the token that is blamed. -/
structure Imbalance where
  /-- What is wrong with the bracket. -/
  cause : ParseCause
  /-- The bracket. -/
  token : Token
  deriving DecidableEq, Repr

/-- A block that is not closed yet. -/
structure OpenBlock where
  /-- The tokens of its header. -/
  header : List Token
  /-- Its opening brace. -/
  opening : Token
  /-- The items before it, in the block around it, last first. -/
  before : List Item

/-- What is known of an outline after some tokens. -/
structure Draft where
  /-- The blocks that are open, innermost first. -/
  blocks : List OpenBlock
  /-- The finished items of the innermost block, last first. -/
  items : List Item
  /-- The tokens of the statement at hand, last first. -/
  statement : List Token
  /-- The brackets open in the statement at hand, innermost first. -/
  brackets : List Token

namespace Draft

/-- The draft before the first token. -/
def empty : Draft :=
  ⟨[], [], [], []⟩

/-- What a statement is for: an import or package needs a word after the keyword. -/
def leafKind : List Token → LeafKind
  | head :: _ :: _ =>
    if head.kind == .word && head.text == "import".toList then .importDirective
    else if head.kind == .word && head.text == "package".toList then .packageDirective
    else .statement
  | _ => .statement

/-- The draft with a token added to the statement at hand. -/
def take (draft : Draft) (token : Token) : Draft :=
  { draft with statement := token :: draft.statement }

/-- The draft with the statement at hand, if there is one, finished. -/
def finish (draft : Draft) : Draft :=
  match draft.statement with
  | [] => draft
  | last :: earlier =>
    let tokens := (last :: earlier).reverse
    { draft with items := .leaf (leafKind tokens) tokens :: draft.items, statement := [] }

/-- Whether a statement whose last tokens are given, last first, goes on behind a line break because
of how it ends. A doubled sign is an increment or decrement and ends its line. -/
def expectsMore : List Token → Bool
  | [] => false
  | last :: earlier =>
    match last.kind with
    | .punct mark =>
      if ['.', ',', '=', '/', '%', '&', '|', ':'].contains mark then true
      else if mark == '+' || mark == '-' then
        match earlier with
        | [] => true
        | before :: _ => !(before.kind == .punct mark && before.stop == last.start)
      else false
    | _ => false

/-- Whether tokens behind a line break go on with the statement before it: the first of them that is
no line break is a brace, or a mark that no statement starts with. -/
def goesOn (rest : List Token) : Bool :=
  match (rest.dropWhile (·.kind == .newline)).head? with
  | some token =>
    [.punct '.', .opening .curly, .punct '?', .punct '&', .punct '|'].contains token.kind
  | none => false

/-- The draft after one more token; `rest` are the tokens behind it. -/
def step (draft : Draft) (token : Token) (rest : List Token) : Except Imbalance Draft :=
  match token.kind, draft.brackets with
  | .newline, [] =>
    if draft.statement.isEmpty then .ok draft
    else if expectsMore draft.statement || goesOn rest then .ok (draft.take token)
    else .ok draft.finish
  | .semicolon, [] => .ok draft.finish
  | .opening .curly, [] =>
    .ok ⟨⟨draft.statement.reverse, token, draft.items⟩ :: draft.blocks, [], [], []⟩
  | .opening _, _ => .ok { draft.take token with brackets := token :: draft.brackets }
  | .closing bracket, innermost :: outer =>
    if innermost.kind == .opening bracket then .ok { draft.take token with brackets := outer }
    else
      match innermost.kind with
      | .opening expected => .error ⟨.mismatched bracket expected, token⟩
      | _ => .error ⟨.unexpected bracket, token⟩
  | .closing bracket, [] =>
    match bracket, draft.finish.blocks with
    | .curly, around :: outer =>
      let block := .block around.header around.opening draft.finish.items.reverse token
      .ok ⟨outer, block :: around.before, [], []⟩
    | _, _ => .error ⟨.unexpected bracket, token⟩
  | _, _ => .ok (draft.take token)

/-- The outline that a draft stands for at the end of a script; nothing may be open then. -/
def close (draft : Draft) : Except Imbalance (List Item) :=
  match draft.brackets, draft.blocks with
  | innermost :: _, _ =>
    match innermost.kind with
    | .opening bracket => .error ⟨.unclosed bracket, innermost⟩
    | _ => .error ⟨.unclosed .curly, innermost⟩
  | [], around :: _ => .error ⟨.unclosed .curly, around.opening⟩
  | [], [] => .ok draft.finish.items.reverse

/-- The outline of a script, given the draft of what comes before some tokens. -/
def outline (draft : Draft) : List Token → Except Imbalance (List Item)
  | [] => draft.close
  | token :: rest =>
    match draft.step token rest with
    | .ok next => next.outline rest
    | .error imbalance => .error imbalance

end Draft

/-- The statements and blocks that the tokens of a script form. -/
def outline (tokens : List Token) : Except Imbalance (List Item) :=
  Draft.empty.outline tokens

end CorpusFacts.Script
