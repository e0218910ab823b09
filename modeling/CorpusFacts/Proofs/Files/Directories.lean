import CorpusFacts.Files.FileTree
import CorpusFacts.Files.Walk
import Mathlib.Data.List.Basic
import Mathlib.Data.List.Perm.Subperm

/-!
# The directories of a tree

A tree has finitely many directories. Different locations of directories are different directories,
so there are at most as many of them as the tree counts.
-/

namespace CorpusFacts

namespace Entry

/-- The entry found under a name is an entry of that name. -/
theorem mem_of_find? {name : String} {entry : Entry} {entries : List (String × Entry)}
    (h : find? name entries = some entry) : (name, entry) ∈ entries := by
  induction entries with
  | nil => cases h
  | cons first rest ih =>
    obtain ⟨other, found⟩ := first
    rw [find?] at h
    split at h
    · rename_i hname
      obtain rfl : other = name := by simpa using hname
      cases h
      exact List.mem_cons_self ..
    · exact List.mem_cons_of_mem _ (ih h)

mutual

/-- The locations of the directories in an entry, itself included. -/
def directoryLocations : Entry → List (List String)
  | .directory entries => [] :: directoryLocationsOf entries
  | _ => []

/-- The locations of the directories in some entries. -/
def directoryLocationsOf : List (String × Entry) → List (List String)
  | [] => []
  | (name, entry) :: rest =>
    entry.directoryLocations.map (name :: ·) ++ directoryLocationsOf rest

end

mutual

/-- There are as many locations as directories. -/
theorem directoryLocations_length :
    (entry : Entry) → entry.directoryLocations.length = entry.directoryCount
  | .file _ => by simp only [directoryLocations, directoryCount, List.length_nil]
  | .link _ => by simp only [directoryLocations, directoryCount, List.length_nil]
  | .directory entries => by
    simp only [directoryLocations, directoryCount, List.length_cons,
      directoryLocationsOf_length entries]
    omega

/-- There are as many locations in some entries as directories. -/
theorem directoryLocationsOf_length :
    (entries : List (String × Entry)) →
      (directoryLocationsOf entries).length = directoryCountOf entries
  | [] => by simp only [directoryLocationsOf, directoryCountOf, List.length_nil]
  | (_, entry) :: rest => by
    simp only [directoryLocationsOf, directoryCountOf, List.length_append, List.length_map,
      directoryLocations_length entry, directoryLocationsOf_length rest]

end

/-- What lies in an entry of a directory lies in the directory. -/
theorem mem_directoryLocationsOf {name : String} {entry : Entry} {location : List String}
    {entries : List (String × Entry)} (hmem : (name, entry) ∈ entries)
    (h : location ∈ entry.directoryLocations) :
    name :: location ∈ directoryLocationsOf entries := by
  induction entries with
  | nil => cases hmem
  | cons first rest ih =>
    obtain ⟨other, found⟩ := first
    rw [directoryLocationsOf, List.mem_append]
    rcases List.mem_cons.mp hmem with heq | hmem
    · cases heq
      exact Or.inl (List.mem_map_of_mem h)
    · exact Or.inr (ih hmem)

/-- Every location of a directory is counted. -/
theorem mem_directoryLocations {entry found : Entry} {location : List String}
    (h : entry.at? location = some found) (hfound : found.isDirectory = true) :
    location ∈ entry.directoryLocations := by
  induction location generalizing entry with
  | nil =>
    obtain rfl : entry = found := by simpa [at?] using h
    cases entry <;> simp_all [isDirectory, directoryLocations]
  | cons name location ih =>
    cases entry with
    | file content => simp [at?] at h
    | link target => simp [at?] at h
    | directory entries =>
      rw [at?] at h
      split at h
      · rename_i inner hinner
        rw [directoryLocations]
        exact List.mem_cons_of_mem _ (mem_directoryLocationsOf (mem_of_find? hinner) (ih h))
      · cases h

end Entry

/-- There are at most as many different locations of directories as a tree counts. -/
theorem FileTree.length_le_directoryCount {tree : FileTree} {locations : List (List String)}
    (hnodup : locations.Nodup) (hdirectory : ∀ location ∈ locations, tree.isDirectoryAt location) :
    locations.length ≤ tree.root.directoryCount := by
  rw [← Entry.directoryLocations_length]
  refine (hnodup.subperm fun location hlocation => ?_).length_le
  have h := hdirectory location hlocation
  rw [isDirectoryAt] at h
  split at h
  · rename_i entry hentry
    exact Entry.mem_directoryLocations hentry h
  · cases h

/-- A path that leads to a directory leads to the location of one. -/
theorem FileTree.location_of_isDirectory {tree : FileTree} {path : Path}
    (h : tree.isDirectory path = true) :
    ∃ location, tree.canonical path = .ok location ∧ tree.isDirectoryAt location = true := by
  rw [FileTree.isDirectory, FileTree.entry?] at h
  cases hlocation : tree.canonical path with
  | error failure => simp [hlocation] at h
  | ok location =>
    refine ⟨location, rfl, ?_⟩
    rw [hlocation] at h
    exact h

end CorpusFacts
