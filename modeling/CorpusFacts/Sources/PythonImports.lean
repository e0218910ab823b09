import CorpusFacts.Sources.PythonGrammar
import CorpusFacts.Sources.PythonTokens
import CorpusFacts.Syntax.ParseError

/-!
# Imports of Python sources

Of a Python source only its imports are kept, wherever they stand, but the whole source has to be
well-formed. What is imported from `__future__` switches features on; it is no import.
-/

namespace CorpusFacts.Python

/-- Reads a source; none where it is not well-formed. Each of its characters makes one token at
most, starts a line, and ends one at most of the lines that are indented less. -/
def recognize? (source : List Char) : Option Recognition :=
  if source.contains '\x00' then none
  else
    let place := SourcePlace.start source
    let place := if source.head? == some '\ufeff' then place.skip 1 else place
    Recognition.finish readToken (4 * source.length + 4) ⟨place, .start⟩ (.start grammar)

/-- The tokens between those that have a name. -/
def splitAt (name : String) : List Lexeme → List (List Lexeme)
  | [] => [[]]
  | lexeme :: rest =>
    if lexeme.name == name then [] :: splitAt name rest
    else
      match splitAt name rest with
      | [] => [[lexeme]]
      | part :: parts => (lexeme :: part) :: parts

/-- The node over an imported name, which may be given another one. -/
def importedName (tokens : List Lexeme) : Option Node :=
  match splitAt "as" tokens with
  | [name] => nodeOver .dottedName (some .name) [] name
  | name :: _ =>
    nodeOver .aliasedImport (some .name) (nodeOver .dottedName (some .name) [] name).toList tokens
  | [] => none

/-- The nodes over imported names with commas between them. -/
def importedNames (tokens : List Lexeme) : List Node :=
  (splitAt "," tokens).filterMap importedName

/-- The node over an import of modules. -/
def moduleImport (statement : List Lexeme) : Option Node :=
  nodeOver .importStatement none (importedNames statement.tail) statement

/-- The nodes over what is imported from a module, all of it or some names between brackets. -/
def importedFrom (tokens : List Lexeme) : List Node :=
  match tokens with
  | first :: _ =>
    if first.name == "*" then (nodeOver .wildcardImport none [] tokens).toList
    else importedNames (tokens.filter fun token => token.name != "(" && token.name != ")")
  | [] => []

/-- The node over the module that names are imported from. -/
def sourceModule (tokens : List Lexeme) : Option Node :=
  let isRelative := tokens.head?.any (·.name == ".")
  nodeOver (if isRelative then .relativeImport else .dottedName) (some .moduleName) [] tokens

/-- The node over an import of names from a module. -/
def nameImport (statement : List Lexeme) : Option Node :=
  match splitAt "import" statement.tail with
  | [module, names] =>
    nodeOver .importFromStatement none ((sourceModule module).toList ++ importedFrom names)
      statement
  | _ => none

/-- The imports of a source, in order. -/
def imports (recognition : Recognition) : List Node :=
  ((recognition.described "ImportStatement").filterMap moduleImport
    ++ (recognition.described "ImportFromStatement").filterMap nameImport).mergeSort
    fun a b => a.start ≤ b.start

/-- The syntax tree of a Python source, as far as imports go. -/
def tree (source : List Char) : Except ParseCause Node :=
  match recognize? source with
  | none => .error .malformed
  | some recognition =>
    .ok (.mk .pythonModule none 0 (Text.byteLength source) 1 (imports recognition))

end CorpusFacts.Python
