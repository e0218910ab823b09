import Std.Data.HashMap

/-!
# Grammars

A grammar gives every rule some alternatives, each a sequence of words with blanks between them. A
word with a capital letter names a rule; any other word is a token. Behind the name of a rule, `?`
means that it may be left out, `*` that it may stand any number of times, `+` that it stands at
least once, and `%` that it stands at least once, with commas between.

All alternatives of a grammar are laid out in one row of symbols, each with a mark at its end, so
that a place in an alternative is a number.
-/

namespace CorpusFacts

/-- A symbol of an alternative. -/
inductive Symbol where
  /-- A token. -/
  | token (name : String)
  /-- What one of the alternatives of a rule stands for. -/
  | rule (index : Nat)
  /-- The end of an alternative of a rule. -/
  | done (index : Nat)
  deriving Repr

/-- A rule with its alternatives as words. -/
structure WordRule where
  /-- The name of the rule. -/
  name : String
  /-- The words of its alternatives. -/
  alternatives : List (List String)

/-- A grammar. -/
structure Grammar where
  /-- The names of the rules. -/
  names : Array String
  /-- The alternatives of all rules, one after the other. -/
  symbols : Array Symbol
  /-- The places at which the alternatives of each rule start. -/
  starts : Array (List Nat)
  /-- Whether a rule may stand for nothing. -/
  empties : Array Bool

namespace Grammar

/-- Whether a word names a rule. -/
def isRuleName (word : String) : Bool :=
  word.toList.head?.any Char.isUpper

/-- The rules that a word with some marks behind it needs; the word is given last character first.
-/
def markRules : List Char → List WordRule
  | [] => []
  | mark :: base =>
    let word := String.ofList (mark :: base).reverse
    let inner := String.ofList base.reverse
    match mark with
    | '?' => ⟨word, [[inner], []]⟩ :: markRules base
    | '*' => ⟨word, [[word, inner], []]⟩ :: markRules base
    | '+' => ⟨word, [[word, inner], [inner]]⟩ :: markRules base
    | '%' => ⟨word, [[word, ",", inner], [inner]]⟩ :: markRules base
    | _ => []

/-- The rules that the words of some rules need. -/
def wordRules (rules : List WordRule) : List WordRule :=
  let words := (rules.flatMap (·.alternatives)).flatten
  (words.filter isRuleName).flatMap fun word => markRules word.toList.reverse

/-- The first rule of each name. -/
def firstOfEach (rules : List WordRule) : List WordRule :=
  let step := fun (kept : List WordRule × Std.HashMap String Unit) (rule : WordRule) =>
    if kept.2.contains rule.name then kept else (rule :: kept.1, kept.2.insert rule.name ())
  (rules.foldl step ([], ∅)).1.reverse

/-- The symbols of an alternative of a rule. -/
def alternativeSymbols (indices : Std.HashMap String Nat) (rule : Nat) (words : List String) :
    List Symbol :=
  words.map (fun word =>
    match indices[word]? with
    | some index => .rule index
    | none => .token word) ++ [.done rule]

/-- Whether an alternative may stand for nothing, if the rules before its end are known to. -/
def isEmptyAlternative (empties : Array Bool) : List Symbol → Bool
  | [] => true
  | .token _ :: _ => false
  | .rule index :: rest => empties.getD index false && isEmptyAlternative empties rest
  | .done _ :: _ => true

/-- The rules that may stand for nothing, after looking at all alternatives `bound` times. -/
def emptyRules (alternatives : List (List (List Symbol))) : (bound : Nat) → Array Bool → Array Bool
  | 0, empties => empties
  | bound + 1, empties =>
    let next := (alternatives.map fun symbols => symbols.any (isEmptyAlternative empties)).toArray
    if next == empties then empties else emptyRules alternatives bound next

/-- The places at which lists start that stand one after the other from some place on. -/
def startsFrom (start : Nat) : List (List Symbol) → List Nat
  | [] => []
  | symbols :: rest => start :: startsFrom (start + symbols.length) rest

/-- The places at which the alternatives of rules start that stand one after the other. -/
def ruleStarts (start : Nat) : List (List (List Symbol)) → List (List Nat)
  | [] => []
  | alternatives :: rest =>
    startsFrom start alternatives :: ruleStarts (start + alternatives.flatten.length) rest

/-- The grammar of some rules with their alternatives. The first rule is what the grammar describes.
-/
def ofRules (written : List (String × List String)) : Grammar :=
  let given := written.map fun (name, alternatives) =>
    WordRule.mk name (alternatives.map fun text => (text.splitOn " ").filter (· != ""))
  let rules := firstOfEach (given ++ wordRules given)
  let names := rules.map (·.name)
  let indices := Std.HashMap.ofList names.zipIdx
  let alternatives := rules.zipIdx.map fun (rule, index) =>
    rule.alternatives.map (alternativeSymbols indices index)
  { names := names.toArray
    symbols := alternatives.flatten.flatten.toArray
    starts := (ruleStarts 0 alternatives).toArray
    empties := emptyRules alternatives rules.length (rules.map fun _ => false).toArray }

/-- The places at which the alternatives of a rule start. -/
def startsOf (grammar : Grammar) (rule : Nat) : List Nat :=
  grammar.starts.getD rule []

/-- Whether a rule may stand for nothing. -/
def isEmptyRule (grammar : Grammar) (rule : Nat) : Bool :=
  grammar.empties.getD rule false

/-- The rules with a name. -/
def rulesNamed (grammar : Grammar) (name : String) : List Nat :=
  (grammar.names.toList.zipIdx.filter (·.1 == name)).map (·.2)

end Grammar

end CorpusFacts
