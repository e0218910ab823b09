import CorpusFacts.Files.FileTree
import CorpusFacts.Output.Render

/-!
# Written records

Records are written to a file in place of its earlier content. The directories around the file are
made first.
-/

namespace CorpusFacts

/-- Why records cannot be written. -/
inductive OutputError where
  /-- The directory of the file cannot be made. -/
  | createDirectory (path : Path) (failure : FileFailure)
  /-- The file cannot be written. -/
  | write (path : Path) (failure : FileFailure)
  deriving DecidableEq, Repr

namespace OutputError

/-- The wording of an error. -/
def message : OutputError → String
  | createDirectory path failure =>
    "cannot create output directory " ++ path.text ++ ": " ++ failure.message
  | write path failure => "cannot write " ++ path.text ++ ": " ++ failure.message

end OutputError

/-- Makes the directory that a file lies in; a bare file name needs none. -/
def makeParent (tree : FileTree) (path : Path) : FileTree × Except OutputError Unit :=
  match path.parent? with
  | none => (tree, .ok ())
  | some parent =>
    match tree.makeDirectories parent with
    | (made, .ok ()) => (made, .ok ())
    | (made, .error failure) => (made, .error (.createDirectory parent failure))

/-- Writes a text to a file. -/
def writeText (tree : FileTree) (path : Path) (text : String) :
    FileTree × Except OutputError Unit :=
  match makeParent tree path with
  | (made, .error error) => (made, .error error)
  | (made, .ok ()) =>
    match made.write path text.toUTF8 with
    | .ok written => (written, .ok ())
    | .error failure => (made, .error (.write path failure))

/-- Writes records to a file in a format. -/
def writeRecords [Record ρ] (tree : FileTree) (path : Path) (format : OutputFormat)
    (records : List ρ) : FileTree × Except OutputError Unit :=
  writeText tree path (renderRecords format records)

end CorpusFacts
