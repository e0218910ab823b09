import CorpusFacts.Files.FileTree

/-!
# Walks through directories

A walk lists everything below a path, parents before what they contain and names in ascending order.
Links are not followed, except that the walk may start at a link to a directory.
-/

namespace CorpusFacts

/-- Something met on a walk. -/
structure Met where
  /-- Its path, which extends the path the walk started at. -/
  path : Path
  /-- The names that lead to it from the start. -/
  names : List String
  /-- What it is. -/
  entry : Entry

namespace Entry

mutual

/-- What is met below an entry. Where `enters` refuses something, neither it nor anything below it
is met. -/
def walk (enters : Met → Bool) (path : Path) (names : List String) : Entry → List Met
  | .directory entries => walkEntries enters path names entries
  | _ => []

/-- What is met below some entries of a directory, themselves included. -/
def walkEntries (enters : Met → Bool) (path : Path) (names : List String) :
    List (String × Entry) → List Met
  | [] => []
  | (name, entry) :: rest =>
    let met : Met := ⟨path.join name, names ++ [name], entry⟩
    (if enters met then met :: entry.walk enters met.path met.names else [])
      ++ walkEntries enters path names rest

end

mutual

/-- The number of directories in an entry, itself included. -/
def directoryCount : Entry → Nat
  | .directory entries => 1 + directoryCountOf entries
  | _ => 0

/-- The number of directories in some entries. -/
def directoryCountOf : List (String × Entry) → Nat
  | [] => 0
  | (_, entry) :: rest => entry.directoryCount + directoryCountOf rest

end

end Entry

namespace FileTree

/-- What a path leads to where a walk starts: a link to a directory stands for the directory, and
any other link for itself. -/
def walkStart (tree : FileTree) (path : Path) : Except FileFailure Entry :=
  match tree.resolve path false with
  | .error failure => .error failure
  | .ok (.absent ..) => .error .notFound
  | .ok (.existing location) =>
    match tree.root.at? location with
    | none => .error .notFound
    | some (.link target) =>
      match tree.canonical path with
      | .error failure => .error failure
      | .ok location =>
        match tree.root.at? location with
        | some (.directory entries) => .ok (.directory entries)
        | _ => .ok (.link target)
    | some entry => .ok entry

/-- Everything that a walk from a path meets, the start included. -/
def walk (tree : FileTree) (enters : Met → Bool) (path : Path) : Except FileFailure (List Met) :=
  (tree.walkStart path).map fun entry => ⟨path, [], entry⟩ :: entry.walk enters path []

end FileTree

end CorpusFacts
