import CorpusFacts.Files.Path
import CorpusFacts.Syntax.Node
import CorpusFacts.Text.Words

/-!
# Parsed files

A parsed file is its source text together with the syntax tree of that text. The text of a node is
the part of the source that its range of bytes covers.
-/

namespace CorpusFacts

/-- The languages that files are read in. -/
inductive Language where
  /-- Kotlin sources and build scripts. -/
  | kotlin
  /-- Groovy build scripts. -/
  | groovy
  /-- Properties files. -/
  | properties
  /-- Java sources. -/
  | java
  /-- Python sources. -/
  | python
  deriving DecidableEq, Repr

namespace Language

/-- The name of a language. -/
def name : Language → String
  | kotlin => "kotlin"
  | groovy => "groovy"
  | properties => "properties"
  | java => "java"
  | python => "python"

/-- The extensions of the files in a language. -/
def extensions : Language → List String
  | kotlin => ["kt", "kts"]
  | groovy => ["gradle"]
  | properties => ["properties"]
  | java => ["java"]
  | python => ["py"]

/-- Every language. -/
def all : List Language :=
  [kotlin, groovy, properties, java, python]

/-- The language of files with an extension. -/
def ofExtension? (extension : String) : Option Language :=
  all.find? fun language => language.extensions.contains extension

/-- The language of a file, by the extension of its name. -/
def ofPath? (path : Path) : Option Language :=
  match path.extension? with
  | some extension => ofExtension? (String.ofList extension)
  | none => none

/-- Every extension with a language, in order. -/
def supportedExtensions : List String :=
  (all.flatMap extensions).mergeSort

end Language

/-- The text after its first `count` bytes; none where that cuts a character. -/
def dropBytes : Nat → List Char → Option (List Char)
  | 0, text => some text
  | _ + 1, [] => none
  | count + 1, c :: text =>
    if c.utf8Size ≤ count + 1 then dropBytes (count + 1 - c.utf8Size) text else none

/-- The first `count` bytes of a text; none where that cuts a character. -/
def takeBytes : Nat → List Char → Option (List Char)
  | 0, _ => some []
  | _ + 1, [] => none
  | count + 1, c :: text =>
    if c.utf8Size ≤ count + 1 then (takeBytes (count + 1 - c.utf8Size) text).map (c :: ·) else none

/-- The bytes of a text from `start` to `stop`; empty where that is no part of the text. -/
def sliceBytes (text : List Char) (start stop : Nat) : List Char :=
  if stop < start then []
  else ((dropBytes start text).bind (takeBytes (stop - start))).getD []

/-- A parsed file of a project. -/
structure SourceUnit where
  /-- Where the file was read. -/
  path : Path
  /-- Its path in the project, with slashes. -/
  relativePath : String
  /-- The module it belongs to; a dot is the root of the project. -/
  module : String
  /-- The language it was read in. -/
  language : Language
  /-- Its text. -/
  source : List Char
  /-- The syntax tree of the text. -/
  root : Node

namespace SourceUnit

/-- The text that a node covers. -/
def text (unit : SourceUnit) (node : Node) : List Char :=
  sliceBytes unit.source node.start node.stop

/-- Every node of the tree, parents before children, in the order of the source. -/
def preorder (unit : SourceUnit) : List Node :=
  Node.unstack [unit.root]

end SourceUnit

end CorpusFacts
