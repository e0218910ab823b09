/-!
# Entries of a file tree

A directory lists its entries by name, in ascending order of the names. A location is the list of
names that leads from the root directory to an entry without following any link.
-/

namespace CorpusFacts

/-- What a name in a directory stands for. -/
inductive Entry where
  /-- A regular file with its bytes. -/
  | file (content : ByteArray)
  /-- A symbolic link with the path it was given. -/
  | link (target : String)
  /-- A directory with its entries. -/
  | directory (entries : List (String × Entry))

namespace Entry

/-- An empty directory. -/
instance : Inhabited Entry := ⟨.directory []⟩

/-- Whether the entry is a directory itself, not a link to one. -/
def isDirectory : Entry → Bool
  | .directory _ => true
  | _ => false

/-- Whether the entry is a regular file itself, not a link to one. -/
def isFile : Entry → Bool
  | .file _ => true
  | _ => false

/-- The entry of a name among the entries of a directory. -/
def find? (name : String) : List (String × Entry) → Option Entry
  | [] => none
  | (other, entry) :: rest => if other == name then some entry else find? name rest

/-- The entry at a location below this one. -/
def at? : Entry → List String → Option Entry
  | entry, [] => some entry
  | .directory entries, name :: location =>
    match find? name entries with
    | some entry => entry.at? location
    | none => none
  | _, _ :: _ => none

/-- The entries of a directory with one of them added or replaced, in order of their names. -/
def insert (name : String) (entry : Entry) : List (String × Entry) → List (String × Entry)
  | [] => [(name, entry)]
  | (other, old) :: rest =>
    if name == other then (name, entry) :: rest
    else if name < other then (name, entry) :: (other, old) :: rest
    else (other, old) :: insert name entry rest

/-- The entries of a directory without one of them. -/
def erase (name : String) (entries : List (String × Entry)) : List (String × Entry) :=
  entries.filter (·.1 != name)

/-- The entry with the entries of the directory at a location changed by `f`. -/
def modify (f : List (String × Entry) → List (String × Entry)) : Entry → List String → Entry
  | .directory entries, [] => .directory (f entries)
  | .directory entries, name :: location =>
    match find? name entries with
    | some entry => .directory (insert name (entry.modify f location) entries)
    | none => .directory entries
  | entry, _ => entry

end Entry

end CorpusFacts
