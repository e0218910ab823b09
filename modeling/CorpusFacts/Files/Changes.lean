import CorpusFacts.Files.FileTree

/-!
# Changes to a file tree

The files that one tree has and another has not, or has with other bytes. They are what has to be
written to turn the one into the other, as runs never remove a file.
-/

namespace CorpusFacts

/-- A file with the location it lies at. -/
structure PlacedFile where
  /-- The location of the file. -/
  location : List String
  /-- The bytes of the file. -/
  content : ByteArray

namespace Entry

mutual

/-- The files in an entry at a location. -/
def files (location : List String) : Entry → List PlacedFile
  | .file content => [⟨location, content⟩]
  | .link _ => []
  | .directory entries => filesOf location entries

/-- The files in some entries of the directory at a location. -/
def filesOf (location : List String) : List (String × Entry) → List PlacedFile
  | [] => []
  | (name, entry) :: rest => entry.files (location ++ [name]) ++ filesOf location rest

end

/-- Whether an entry is a file of the given bytes. -/
def isFileWith (content : ByteArray) : Entry → Bool
  | .file bytes => bytes == content
  | _ => false

end Entry

namespace PlacedFile

/-- The absolute path of a file. -/
def path (file : PlacedFile) : Path :=
  ⟨"/" ++ "/".intercalate file.location⟩

end PlacedFile

namespace FileTree

/-- Every file of a tree. -/
def files (tree : FileTree) : List PlacedFile :=
  tree.root.files []

/-- Whether a tree has a file as it is. -/
def hasFile (tree : FileTree) (file : PlacedFile) : Bool :=
  (tree.root.at? file.location).any (·.isFileWith file.content)

/-- The files of a tree that an earlier one did not have as they are now. -/
def changedSince (tree earlier : FileTree) : List PlacedFile :=
  tree.files.filter fun file => !earlier.hasFile file

end FileTree

end CorpusFacts
