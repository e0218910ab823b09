import CorpusFacts.Analysis.Survey
import CorpusFacts.Text.Quoted

/-!
# Import directives

The names that a source imports and the package it belongs to. An alias, backticks and a star at the
end are no part of a name.
-/

namespace CorpusFacts.Imports

/-- What a directive says. -/
inductive ImportFact where
  /-- The package that the file belongs to. -/
  | package (name : String)
  /-- The names imported, in order. -/
  | imports (names : List String)
  deriving DecidableEq, Repr

/-- The words of a directive up to an alias, without a leading `static`. -/
def nameWords (body : List Char) : List (List Char) :=
  let words := Text.words body
  let words := if words.head? == some "static".toList then words.drop 1 else words
  words.takeWhile (· != "as".toList)

/-- The name without a star at its end and the dots before that. -/
def withoutStar (name : List Char) : List Char :=
  let plain := if ".*".toList.isSuffixOf name then name.take (name.length - 2) else name
  Text.dropEndWhile (· == '.') plain

/-- The name in a directive that starts with a keyword; none where there is no name. -/
def directiveName? (keyword : String) (text : List Char) : Option (List Char) := do
  let body ← Text.after? keyword.toList (Text.trim text)
  let body := Text.dropEndWhile (· == ';') (Text.trim body)
  let name := withoutStar ((nameWords body).flatten.filter (· != '`'))
  if name.isEmpty then none else some name

/-- Reads packages of sources with braces. -/
def packageAnalyzer (kind : NodeKind) : Analyzer Unit ImportFact where
  name := "package-directive"
  kinds := [kind]
  analyze unit _ node :=
    match directiveName? "package" (unit.text node) with
    | some name => .ok (some (.package (String.ofList name)))
    | none => .error ("cannot read package " ++ Text.quoted (unit.text node))

/-- Reads imports of sources with braces. -/
def importAnalyzer (kind : NodeKind) : Analyzer Unit ImportFact where
  name := "import-directive"
  kinds := [kind]
  analyze unit _ node :=
    match directiveName? "import" (unit.text node) with
    | some name => .ok (some (.imports [String.ofList name]))
    | none => .error ("cannot read import " ++ Text.quoted (unit.text node))

/-- The name that an imported name or an alias stands for. -/
def importedName? (unit : SourceUnit) (node : Node) : Option (List Char) :=
  match node.kind with
  | .dottedName => some (unit.text node)
  | .aliasedImport => (node.childrenWithRole .name).head?.map unit.text
  | _ => none

/-- The names directly below an import. -/
def importedNames (unit : SourceUnit) (node : Node) : List (List Char) :=
  (node.childrenWithRole .name).filterMap (importedName? unit)

/-- What an import of modules says. -/
def moduleImport (unit : SourceUnit) (node : Node) : Except String (Option ImportFact) :=
  match importedNames unit node with
  | [] => .error "import without names"
  | names => .ok (some (.imports (names.map String.ofList)))

/-- What an import of names from a module says; nothing where the module is relative to the package
of the file. -/
def nameImport (unit : SourceUnit) (node : Node) : Except String (Option ImportFact) :=
  match (node.childrenWithRole .moduleName).head? with
  | none => .error "from-import without module"
  | some module =>
    if module.kind == .relativeImport then .ok none
    else
      let source := unit.text module
      if (node.childOfKind? .wildcardImport).isSome then
        .ok (some (.imports [String.ofList source]))
      else
        .ok (some (.imports ((importedNames unit node).map fun name =>
          String.ofList (source ++ '.' :: name))))

/-- Reads imports of Python sources. -/
def pythonImportAnalyzer : Analyzer Unit ImportFact where
  name := "python-import"
  kinds := [.importStatement, .importFromStatement]
  analyze unit _ node :=
    if node.kind == .importStatement then moduleImport unit node else nameImport unit node

end CorpusFacts.Imports
