import CorpusFacts.Syntax.Token

/-!
# Where literals and comments end

A literal may embed expressions in braces, and those may hold literals again. The scan keeps what is
open at each point, innermost first, and moves over the text one character at a time; it ends when
nothing is open any more. Each scan answers the text that follows.
-/

namespace CorpusFacts.Script

/-- A literal that is open, or an expression inside one. Each keeps the text from where the literal
starts. -/
inductive OpenLiteral where
  /-- Between single or double quotes, on one line. -/
  | simple (quote : Char) (start : List Char)
  /-- Between tripled quotes; further quotes at its end belong to it. -/
  | triple (quote : Char) (start : List Char)
  /-- Between slashes. -/
  | slashy (start : List Char)
  /-- In an embedded expression, inside of `depth` braces. -/
  | template (depth : Nat) (start : List Char)
  deriving DecidableEq, Repr

/-- What a literal or embedded expression is called when it does not end. -/
def OpenLiteral.unterminated : OpenLiteral → OpenEnded
  | .simple _ start => ⟨.string, start⟩
  | .triple _ start => ⟨.string, start⟩
  | .slashy start => ⟨.slashyString, start⟩
  | .template _ start => ⟨.template, start⟩

/-- What follows all that is open, innermost first. -/
def closeLiterals : List OpenLiteral → List Char → Except OpenEnded (List Char)
  | [], text => .ok text
  | innermost :: _, [] => .error innermost.unterminated
  | .simple quote start :: outer, c :: text =>
    if c == '\n' then .error ⟨.string, start⟩
    else if c == '\\' then
      match text with
      | [] => .error ⟨.string, start⟩
      | _ :: after => closeLiterals (.simple quote start :: outer) after
    else if c == quote then closeLiterals outer text
    else if c == '$' && quote == '"' then
      match text with
      | [] => .error ⟨.string, start⟩
      | d :: after =>
        if d == '\x7b' then
          closeLiterals (.template 1 start :: .simple quote start :: outer) after
        else closeLiterals (.simple quote start :: outer) (d :: after)
    else closeLiterals (.simple quote start :: outer) text
  | .triple quote start :: outer, c :: text =>
    match text with
    | d :: e :: after =>
      if c == quote && d == quote && e == quote && after.head? != some quote then
        closeLiterals outer after
      else closeLiterals (.triple quote start :: outer) (d :: e :: after)
    | _ => .error ⟨.string, start⟩
  | .slashy start :: outer, c :: text =>
    if c == '/' then closeLiterals outer text
    else
      match text with
      | [] => .error ⟨.slashyString, start⟩
      | d :: after =>
        if c == '\\' && d == '/' then closeLiterals (.slashy start :: outer) after
        else if c == '$' && d == '\x7b' then
          closeLiterals (.template 1 start :: .slashy start :: outer) after
        else closeLiterals (.slashy start :: outer) (d :: after)
  | .template depth start :: outer, c :: text =>
    if c == '\x7b' then closeLiterals (.template (depth + 1) start :: outer) text
    else if c == '\x7d' then
      if depth ≤ 1 then closeLiterals outer text
      else closeLiterals (.template (depth - 1) start :: outer) text
    else if c == '"' || c == '\'' then
      match text with
      | d :: e :: after =>
        if d == c && e == c then
          closeLiterals (.triple c (c :: text) :: .template depth start :: outer) after
        else
          closeLiterals (.simple c (c :: text) :: .template depth start :: outer) (d :: e :: after)
      | [d] => closeLiterals (.simple c (c :: text) :: .template depth start :: outer) [d]
      | [] => closeLiterals (.simple c (c :: text) :: .template depth start :: outer) []
    else closeLiterals (.template depth start :: outer) text

/-- What follows a quoted literal that starts with `quote`, given the text behind that quote. -/
def afterString (quote : Char) (text : List Char) : Except OpenEnded (List Char) :=
  match text with
  | d :: e :: after =>
    if d == quote && e == quote then closeLiterals [.triple quote (quote :: text)] after
    else closeLiterals [.simple quote (quote :: text)] text
  | _ => closeLiterals [.simple quote (quote :: text)] text

/-- What follows a literal between slashes, given the text behind the first one. -/
def afterSlashy (text : List Char) : Except OpenEnded (List Char) :=
  closeLiterals [.slashy ('/' :: text)] text

/-- What follows an identifier between backticks, given the text behind the first one. -/
def afterBacktick (start : List Char) : List Char → Except OpenEnded (List Char)
  | [] => .error ⟨.backtick, start⟩
  | c :: text =>
    if c == '\n' then .error ⟨.backtick, start⟩
    else if c == '`' then .ok text
    else afterBacktick start text

/-- What follows a comment between delimiters that is open `depth` times; only where comments nest
does a delimiter inside open it once more. -/
def afterBlockComment (nests : Bool) (start : List Char) :
    Nat → List Char → Except OpenEnded (List Char)
  | _, [] => .error ⟨.blockComment, start⟩
  | _, [_] => .error ⟨.blockComment, start⟩
  | depth, c :: d :: text =>
    if c == '*' && d == '/' then
      if depth ≤ 1 then .ok text else afterBlockComment nests start (depth - 1) text
    else if nests && c == '/' && d == '*' then afterBlockComment nests start (depth + 1) text
    else afterBlockComment nests start depth (d :: text)

/-- What follows a literal is an end of the text. -/
theorem closeLiterals_suffix {opened : List OpenLiteral} {text rest : List Char}
    (h : closeLiterals opened text = .ok rest) : rest <:+ text := by
  fun_induction closeLiterals opened text
  case case1 => cases h; exact List.suffix_rfl
  all_goals first
    | cases h
    | (rename_i ih; exact (ih h).trans (List.suffix_cons _ _))
    | (rename_i ih; exact (ih h).trans ((List.suffix_cons _ _).trans (List.suffix_cons _ _)))
    | (rename_i ih
       exact (ih h).trans
        ((List.suffix_cons _ _).trans ((List.suffix_cons _ _).trans (List.suffix_cons _ _))))

/-- What follows a quoted literal is an end of the text behind its first quote. -/
theorem afterString_suffix {quote : Char} {text rest : List Char}
    (h : afterString quote text = .ok rest) : rest <:+ text := by
  unfold afterString at h
  split at h
  · split at h
    · exact (closeLiterals_suffix h).trans
        ((List.suffix_cons _ _).trans (List.suffix_cons _ _))
    · exact closeLiterals_suffix h
  · exact closeLiterals_suffix h

/-- What follows an identifier between backticks is an end of the text behind the first one. -/
theorem afterBacktick_suffix {start text rest : List Char}
    (h : afterBacktick start text = .ok rest) : rest <:+ text := by
  fun_induction afterBacktick start text
  all_goals first
    | (cases h; exact List.suffix_cons _ _)
    | cases h
    | (rename_i ih; exact (ih h).trans (List.suffix_cons _ _))

/-- What follows a comment between delimiters is an end of the text behind its start. -/
theorem afterBlockComment_suffix {nests : Bool} {start text rest : List Char} {depth : Nat}
    (h : afterBlockComment nests start depth text = .ok rest) : rest <:+ text := by
  fun_induction afterBlockComment nests start depth text
  all_goals first
    | (cases h; exact (List.suffix_cons _ _).trans (List.suffix_cons _ _))
    | cases h
    | (rename_i ih; exact (ih h).trans (List.suffix_cons _ _))
    | (rename_i ih; exact (ih h).trans ((List.suffix_cons _ _).trans (List.suffix_cons _ _)))

end CorpusFacts.Script
