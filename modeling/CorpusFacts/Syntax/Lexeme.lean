import CorpusFacts.Syntax.Chart
import CorpusFacts.Syntax.Node
import CorpusFacts.Text.Words

/-!
# Recognition by a grammar

A source is read from left to right. What the next token is may depend on the tokens that can
follow, so each token is read only after those before it have been put into the chart of the
grammar.
-/

namespace CorpusFacts

/-- A place in a source. -/
structure SourcePlace where
  /-- What follows the place. -/
  rest : List Char
  /-- The number of bytes before it. -/
  byte : Nat
  /-- The line it is on, from 1. -/
  line : Nat

namespace SourcePlace

/-- The start of a source. -/
def start (source : List Char) : SourcePlace := ⟨source, 0, 1⟩

/-- The place so many characters later. -/
def skip (place : SourcePlace) (count : Nat) : SourcePlace :=
  let text := place.rest.take count
  ⟨place.rest.drop count, place.byte + Text.byteLength text, place.line + Text.newlines text⟩

end SourcePlace

/-- A token that has been read. -/
structure Lexeme where
  /-- Its name in the grammar. -/
  name : String
  /-- The byte it starts at. -/
  start : Nat
  /-- The byte after its last one. -/
  stop : Nat
  /-- The line it starts on. -/
  line : Nat

namespace Lexeme

/-- The token between two places. -/
def between (name : String) (start stop : SourcePlace) : Lexeme :=
  ⟨name, start.byte, stop.byte, start.line⟩

end Lexeme

/-- What comes next in a source, given what is known of it after reading so far. -/
inductive Advance (σ : Type) where
  /-- The end. -/
  | finish
  /-- A token, with all names that it has in the grammar. -/
  | token (names : List String) (lexeme : Lexeme) (state : σ)
  /-- Something that can be no token. -/
  | malformed

/-- Reads the next token of a source, given which tokens can follow. -/
abbrev LexemeReader (σ : Type) := (String → Bool) → σ → Advance σ

/-- A source that has been read. -/
structure Recognition where
  /-- What the grammar makes of it. -/
  chart : Chart
  /-- Its tokens. -/
  lexemes : Array Lexeme

namespace Recognition

/-- Nothing has been read. -/
def start (grammar : Grammar) : Recognition := ⟨.start grammar, #[]⟩

/-- Reads at most `bound` more tokens, up to the end of the source. There must be one way at least
in which the grammar describes all of them. -/
def finish (next : LexemeReader σ) : (bound : Nat) → σ → Recognition → Option Recognition
  | 0, _, _ => none
  | bound + 1, state, recognition =>
    match next recognition.chart.expects state with
    | .malformed => none
    | .finish => if recognition.chart.isComplete then some recognition else none
    | .token names lexeme state =>
      match recognition.chart.read names with
      | some chart => finish next bound state ⟨chart, recognition.lexemes.push lexeme⟩
      | none => none

/-- The tokens from one place to another. -/
def lexemesBetween (recognition : Recognition) (start stop : Nat) : List Lexeme :=
  (recognition.lexemes.extract start stop).toList

/-- The tokens that a rule describes, the longest row of them from each place. -/
def described (recognition : Recognition) (rule : String) : List (List Lexeme) :=
  let spans := recognition.chart.spans rule
  let isLongest := fun (start, stop) => !spans.any fun other => other.1 == start && stop < other.2
  ((spans.filter isLongest).mergeSort fun a b => a.1 ≤ b.1).map fun (start, stop) =>
    recognition.lexemesBetween start stop

end Recognition

/-- The node over some tokens. -/
def nodeOver (kind : NodeKind) (role : Option Role) (children : List Node) :
    List Lexeme → Option Node
  | [] => none
  | first :: rest =>
    let last := (first :: rest).getLast?.getD first
    some (.mk kind role first.start last.stop first.line children)

end CorpusFacts
