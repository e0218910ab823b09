import CorpusFacts.Files.Entry
import CorpusFacts.Files.Failure
import CorpusFacts.Files.Path

/-!
# File trees

The files that a run reads and writes, as a value: a root directory and a working directory from
which relative paths start. A path is resolved step by step, and a symbolic link on the way is
replaced by its target; at most forty links are followed, so resolving always ends.
-/

namespace CorpusFacts

/-- A file system: its root directory, and the location of the working directory. -/
structure FileTree where
  /-- The root directory. -/
  root : Entry
  /-- The location of the working directory. -/
  working : List String
  deriving Inhabited

namespace FileTree

/-- Where a path leads. -/
inductive Place where
  /-- To an entry, at a location free of links. -/
  | existing (location : List String)
  /-- To a name that a directory does not have; `asDirectory` if slashes follow the name. -/
  | absent (directory : List String) (name : String) (asDirectory : Bool)
  deriving Repr

/-- The most links followed while one path is resolved. -/
def maxLinks : Nat := 40

/-- The most bytes of one name. -/
def maxNameBytes : Nat := 255

/-- Whether the entry at a location is a directory. -/
def isDirectoryAt (tree : FileTree) (location : List String) : Bool :=
  match tree.root.at? location with
  | some entry => entry.isDirectory
  | none => false

/-- Where the steps of a path lead from a location. A link at the last step is followed only if
`followLast`; from any other link `follow` goes on, with the steps of the target and those left. -/
def resolveSteps (tree : FileTree) (followLast : Bool)
    (follow : List String → List (List Char) → Except FileFailure Place) (location : List String) :
    List (List Char) → Except FileFailure Place
  | [] => .ok (.existing location)
  | step :: steps =>
    if !tree.isDirectoryAt location then .error .notADirectory
    else if Path.isIdle step then tree.resolveSteps followLast follow location steps
    else if step == ['.', '.'] then tree.resolveSteps followLast follow location.dropLast steps
    else if Text.byteLength step > maxNameBytes then .error .nameTooLong
    else
      let name := String.ofList step
      match tree.root.at? (location ++ [name]) with
      | none =>
        if steps.all (·.isEmpty) then .ok (.absent location name (!steps.isEmpty))
        else .error .notFound
      | some (.link target) =>
        if steps.isEmpty && !followLast then .ok (.existing (location ++ [name]))
        else
          follow (if (⟨target⟩ : Path).isAbsolute then [] else location)
            ((⟨target⟩ : Path).segments ++ steps)
      | some _ => tree.resolveSteps followLast follow (location ++ [name]) steps

/-- Where the steps of a path lead from a location, if `links` more links may be followed. -/
def resolveFrom (tree : FileTree) (followLast : Bool) :
    (links : Nat) → List String → List (List Char) → Except FileFailure Place
  | 0 => tree.resolveSteps followLast fun _ _ => .error .tooManyLinks
  | links + 1 => tree.resolveSteps followLast (tree.resolveFrom followLast links)

/-- Where a path leads; a link that it ends in is followed only if `followLast`. -/
def resolve (tree : FileTree) (path : Path) (followLast : Bool) : Except FileFailure Place :=
  if path.text.toList.contains '\x00' then .error .nulInPath
  else if path.text.isEmpty then .error .notFound
  else
    tree.resolveFrom followLast maxLinks (if path.isAbsolute then [] else tree.working)
      path.segments

/-- The location a path leads to through every link. -/
def canonical (tree : FileTree) (path : Path) : Except FileFailure (List String) :=
  match tree.resolve path true with
  | .ok (.existing location) => .ok location
  | .ok (.absent ..) => .error .notFound
  | .error failure => .error failure

/-- The entry a path leads to through every link. -/
def entry? (tree : FileTree) (path : Path) : Option Entry :=
  match tree.canonical path with
  | .ok location => tree.root.at? location
  | .error _ => none

/-- Whether a path leads to anything. -/
def exists? (tree : FileTree) (path : Path) : Bool :=
  (tree.entry? path).isSome

/-- Whether a path leads to a regular file. -/
def isFile (tree : FileTree) (path : Path) : Bool :=
  match tree.entry? path with
  | some entry => entry.isFile
  | none => false

/-- Whether a path leads to a directory. -/
def isDirectory (tree : FileTree) (path : Path) : Bool :=
  match tree.entry? path with
  | some entry => entry.isDirectory
  | none => false

/-- The bytes of the file a path leads to. -/
def read (tree : FileTree) (path : Path) : Except FileFailure ByteArray := do
  match tree.root.at? (← tree.canonical path) with
  | some (.file content) => .ok content
  | some _ => .error .isADirectory
  | none => .error .notFound

/-- The entries of the directory a path leads to. -/
def entries (tree : FileTree) (path : Path) : Except FileFailure (List (String × Entry)) := do
  match tree.root.at? (← tree.canonical path) with
  | some (.directory entries) => .ok entries
  | some _ => .error .notADirectory
  | none => .error .notFound

/-- The tree with an entry put into the directory at a location. -/
def put (tree : FileTree) (directory : List String) (name : String) (entry : Entry) : FileTree :=
  { tree with root := tree.root.modify (Entry.insert name entry) directory }

/-- The tree with a new directory. -/
def makeDirectory (tree : FileTree) (path : Path) : Except FileFailure FileTree := do
  match ← tree.resolve path false with
  | .existing _ => .error .alreadyExists
  | .absent directory name _ => .ok (tree.put directory name (.directory []))

/-- Makes the first of some nested directories, innermost first, along with those around it. One
that is a directory already is left as it is. What was made before a failure stays. -/
def makeNested (tree : FileTree) : List Path → FileTree × Except FileFailure Unit
  | [] => (tree, .ok ())
  | path :: outer =>
    match tree.makeDirectory path with
    | .ok made => (made, .ok ())
    | .error .notFound =>
      match tree.makeNested outer with
      | (made, .error failure) => (made, .error failure)
      | (made, .ok ()) =>
        match made.makeDirectory path with
        | .ok inner => (inner, .ok ())
        | .error failure => (made, if made.isDirectory path then .ok () else .error failure)
    | .error failure => (tree, if tree.isDirectory path then .ok () else .error failure)

/-- Makes a directory and every directory around it. -/
def makeDirectories (tree : FileTree) (path : Path) : FileTree × Except FileFailure Unit :=
  if path.text.isEmpty then (tree, .ok ()) else tree.makeNested path.ancestors

/-- Where a file that is written lies. A path with a slash at its end cannot be that of a file. -/
def writtenPlace (tree : FileTree) (path : Path) : Except FileFailure Place := do
  let bare := Text.dropEndWhile (· == '/') path.text.toList
  if bare.length == path.text.length then tree.resolve path true
  else if bare.isEmpty then .error .isADirectory
  else
    let _ ← tree.resolve ⟨String.ofList bare⟩ false
    .error .isADirectory

/-- The tree with a file of the given bytes in place of any earlier one. -/
def write (tree : FileTree) (path : Path) (content : ByteArray) : Except FileFailure FileTree := do
  match ← tree.writtenPlace path with
  | .absent _ _ true => .error .isADirectory
  | .absent directory name false => .ok (tree.put directory name (.file content))
  | .existing location =>
    match tree.root.at? location, location.getLast? with
    | some (.file _), some name => .ok (tree.put location.dropLast name (.file content))
    | _, _ => .error .isADirectory

/-- The tree with a symbolic link. -/
def makeLink (tree : FileTree) (path : Path) (target : String) : Except FileFailure FileTree := do
  match ← tree.resolve path false with
  | .existing _ => .error .alreadyExists
  | .absent _ _ true => .error .notFound
  | .absent directory name false => .ok (tree.put directory name (.link target))

/-- The tree without the entry of a path, and without all below it. -/
def remove (tree : FileTree) (path : Path) : Except FileFailure FileTree := do
  match ← tree.resolve path false with
  | .absent .. => .error .notFound
  | .existing location =>
    match location.getLast? with
    | some name => .ok { tree with root := tree.root.modify (Entry.erase name) location.dropLast }
    | none => .error .isADirectory

end FileTree

end CorpusFacts
