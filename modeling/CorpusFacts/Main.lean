import CorpusFacts.CommandLine.Run
import CorpusFacts.Files.Changes

/-!
# The command line

Reads the files to work on, does what the arguments ask for, writes the files that came out changed
and shows the report. The names of the files come from standard input, one a line; a name that ends
in a slash is a directory. A list of that kind is what `find -type f` prints.
-/

namespace CorpusFacts.CommandLine

/-- A tree with nothing but the working directory in it. -/
def emptyTree (workingDirectory : String) : FileTree :=
  let tree : FileTree := ⟨.directory [], []⟩
  let (made, _) := tree.makeDirectories ⟨workingDirectory⟩
  { made with working := (made.canonical ⟨workingDirectory⟩).toOption.getD [] }

/-- A tree with one more file, and with the directories around it. -/
def withFile (tree : FileTree) (name : String) (content : ByteArray) : FileTree :=
  let (made, _) := makeParent tree ⟨name⟩
  (made.write ⟨name⟩ content).toOption.getD made

/-- Reads what a line of the list of files names. -/
def load (tree : FileTree) (name : String) : IO FileTree := do
  if name.isEmpty then return tree
  if name.endsWith "/" then return (tree.makeDirectories ⟨name⟩).1
  return withFile tree name (← IO.FS.readBinFile name)

/-- Reads the files that the lines of a stream name, until it ends. -/
partial def loadAll (stream : IO.FS.Stream) (tree : FileTree) : IO FileTree := do
  let line ← stream.getLine
  if line.isEmpty then return tree
  loadAll stream (← load tree (line.dropEndWhile (· == '\n')).toString)

/-- Writes a file, and makes the directory that it lies in. -/
def store (file : PlacedFile) : IO Unit := do
  match file.path.parent? with
  | some directory => IO.FS.createDirAll directory.text
  | none => pure ()
  IO.FS.writeBinFile file.path.text file.content

/-- Shows what a command has to say. -/
def Ending.print (ending : Ending) : IO Unit := do
  IO.print ending.output
  for message in ending.errors do
    IO.eprintln ("Error: " ++ message)

/-- Does what is requested with the files named on standard input. -/
def Request.perform (request : Request) : IO UInt32 := do
  let workingDirectory := (← IO.getEnv "PWD").getD "/"
  let tree ← loadAll (← IO.getStdin) (emptyTree workingDirectory)
  let (written, ending) := request.run tree
  (written.changedSince tree).forM store
  ending.print
  return ending.exitCode.toUInt32

end CorpusFacts.CommandLine

/-- Runs the program on its arguments. -/
def main (arguments : List String) : IO UInt32 := do
  match CorpusFacts.CommandLine.request arguments with
  | .error usage =>
    IO.eprintln ("usage: " ++ CorpusFacts.programName ++ " COMMAND [OPTIONS] CORPUS")
    return usage.exitCode.toUInt32
  | .ok request => request.perform
