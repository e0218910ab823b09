import CorpusFacts.Sources.JavaGrammar
import CorpusFacts.Sources.JavaTokens
import CorpusFacts.Syntax.ParseError

/-!
# Imports and packages of Java sources

Of a Java source only its imports and packages are kept, but the whole source has to be well-formed.
-/

namespace CorpusFacts.Java

/-- Reads a source; none where it is not well-formed. -/
def recognize? (source : List Char) : Option Recognition :=
  if source.contains '\x00' then none
  else
    let start := SourcePlace.start source
    let start := if source.head? == some '\ufeff' then start.skip 1 else start
    Recognition.finish readToken (source.length + 1) start (.start grammar)

/-- The nodes over what a rule describes. -/
def nodesOf (recognition : Recognition) (rule : String) (kind : NodeKind) : List Node :=
  (recognition.described rule).filterMap (nodeOver kind none [])

/-- The imports and packages of a source, in order. -/
def declarations (recognition : Recognition) : List Node :=
  (nodesOf recognition "PackageDeclaration" .packageDeclaration
    ++ nodesOf recognition "ImportDeclaration" .importDeclaration).mergeSort
    fun a b => a.start ≤ b.start

/-- The syntax tree of a Java source, as far as imports and packages go. -/
def tree (source : List Char) : Except ParseCause Node :=
  match recognize? source with
  | none => .error .malformed
  | some recognition =>
    .ok (.mk .program none 0 (Text.byteLength source) 1 (declarations recognition))

end CorpusFacts.Java
