import CorpusFacts.Files.FileTree
import CorpusFacts.Sources.JavaDeclarations
import CorpusFacts.Properties.Lines
import CorpusFacts.Sources.PythonImports
import CorpusFacts.Script.Tree

/-!
# Parsing files

A file is decoded, a byte order mark is dropped, and the rest is parsed in the language that the
extension of its name selects.
-/

namespace CorpusFacts

/-- The text of bytes that stand for one character each, by its number. -/
def decodeLatin1 (bytes : ByteArray) : List Char :=
  bytes.toList.map fun byte => Char.ofNat byte.toNat

/-- The text that the bytes of a file stand for. Properties files that are no UTF-8 are read one
byte a character; all other files must be UTF-8. -/
def Language.decode (language : Language) (path : Path) (bytes : ByteArray) :
    Except ParseError (List Char) :=
  match String.fromUTF8? bytes with
  | some text => .ok text.toList
  | none =>
    if language == .properties then .ok (decodeLatin1 bytes)
    else .error ⟨path, none, .notUtf8⟩

/-- The syntax tree of a text in a language. -/
def Language.tree (language : Language) (path : Path) (source : List Char) :
    Except ParseError Node :=
  match language with
  | .kotlin =>
    match Script.tree .kotlin source with
    | .ok root => .ok root
    | .error (line, cause) => .error ⟨path, some line, cause⟩
  | .groovy =>
    match Script.tree .groovy source with
    | .ok root => .ok root
    | .error (line, cause) => .error ⟨path, some line, cause⟩
  | .properties => .ok (Properties.tree source)
  | .java =>
    match Java.tree source with
    | .ok root => .ok root
    | .error cause => .error ⟨path, none, cause⟩
  | .python =>
    match Python.tree source with
    | .ok root => .ok root
    | .error cause => .error ⟨path, none, cause⟩

namespace SourceUnit

/-- A text parsed as the file at a path, at the root of its project. -/
def ofText (path : Path) (text : List Char) : Except ParseError SourceUnit :=
  match Language.ofPath? path with
  | none => .error ⟨path, none, .unknownLanguage⟩
  | some language => do
    let source := Text.dropByteOrderMark text
    let root ← language.tree path source
    let name := String.ofList ((path.fileName?).getD [])
    .ok ⟨path, name, ".", language, source, root⟩

/-- The bytes of a file decoded and parsed. -/
def ofBytes (path : Path) (bytes : ByteArray) : Except ParseError SourceUnit :=
  match Language.ofPath? path with
  | none => .error ⟨path, none, .unknownLanguage⟩
  | some language => do ofText path (← language.decode path bytes)

/-- A file read from a tree, as part of a module of a project. -/
def ofFile (tree : FileTree) (path : Path) (relativePath module : String) :
    Except ParseError SourceUnit :=
  match Language.ofPath? path with
  | none => .error ⟨path, none, .unknownLanguage⟩
  | some _ =>
    match tree.read path with
    | .error failure => .error ⟨path, none, .unreadable failure⟩
    | .ok bytes => do
      let unit ← ofBytes path bytes
      .ok { unit with relativePath := relativePath, module := module }

end SourceUnit

end CorpusFacts
