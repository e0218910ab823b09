import CorpusFacts.Script.Lexer
import CorpusFacts.Script.Outline
import CorpusFacts.Syntax.SourceUnit

/-!
# Syntax trees of scripts

The tree of a script has a node for each statement and each block of its outline. The node of a
statement ends with its last token that is no line break.
-/

namespace CorpusFacts.Script

/-- Where the tokens of a statement end: line breaks at the end do not count. -/
def stopOf (tokens : List Token) : Nat :=
  match (tokens.reverse.dropWhile (·.kind == .newline)).head?, tokens.getLast? with
  | some last, _ => last.stop
  | none, some last => last.stop
  | none, none => 0

/-- The node over some tokens. -/
def nodeOver (kind : NodeKind) (role : Option Role) : List Token → Option Node
  | [] => none
  | first :: rest => some (.mk kind role first.start (stopOf (first :: rest)) first.line [])

/-- The node kind of a statement. -/
def LeafKind.nodeKind : LeafKind → NodeKind
  | statement => .statement
  | importDirective => .importDirective
  | packageDirective => .packageDirective

mutual

/-- The node of a statement or block; a statement without tokens has none. -/
def Item.node? : Item → Option Node
  | .leaf kind tokens => nodeOver kind.nodeKind none tokens
  | .block header opening body closing =>
    let first := header.head?.getD opening
    let heading := (nodeOver .blockHeader (some .header) header).toList
    some (.mk .block none first.start closing.stop first.line (heading ++ nodesOf body))

/-- The nodes of some items, in order. -/
def nodesOf : List Item → List Node
  | [] => []
  | item :: items => item.node?.toList ++ nodesOf items

end

/-- The syntax tree of a script. -/
def tree (dialect : Dialect) (source : List Char) : Except (Nat × ParseCause) Node :=
  match tokens dialect source with
  | .error ended => .error (lineOfEnd source ended.text, .unterminated ended.what)
  | .ok tokens =>
    match outline tokens with
    | .error imbalance => .error (imbalance.token.line, imbalance.cause)
    | .ok items => .ok (.mk .script none 0 (Text.byteLength source) 1 (nodesOf items))

/-- The name of a block from the text of its header: an identifier between backticks, or the leading
letters, digits and underscores. -/
def nameOfHeader (header : List Char) : Option (List Char) :=
  let name :=
    match Text.trimStart header with
    | '`' :: rest => rest.takeWhile (· != '`')
    | text => text.takeWhile fun c => Text.isAlphanumeric c || c == '_'
  if name.isEmpty then none else some name

/-- The name of a block of a parsed script. -/
def blockName (unit : SourceUnit) (node : Node) : Option (List Char) :=
  if node.kind == .block then
    (node.childOfKind? .blockHeader).bind fun header => nameOfHeader (unit.text header)
  else none

end CorpusFacts.Script
