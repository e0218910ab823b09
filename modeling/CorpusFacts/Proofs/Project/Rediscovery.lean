import CorpusFacts.Proofs.Files.Likeness
import CorpusFacts.Proofs.Project.Confinement

/-!
# Projects of alike trees

Which projects a corpus has depends on the kinds of entries only, not on the contents of files. So
two trees with the same kinds of entries everywhere have the same projects.
-/

namespace CorpusFacts

variable {tree other : FileTree} {path directory corpus : Path} {location : List String}

namespace FileTree

/-- Two sound trees without links have the same kinds of entries everywhere. -/
structure IsAlike (tree other : FileTree) : Prop where
  /-- The working directory is the same. -/
  working : other.working = tree.working
  /-- The same kinds of entries lie everywhere. -/
  kinds : ∀ location, other.kindAt location = tree.kindAt location
  /-- There are no links. -/
  plain : ∀ location, tree.kindAt location ≠ some .link
  /-- The one tree is sound. -/
  sound : tree.root.IsSound
  /-- The other tree is sound. -/
  otherSound : other.root.IsSound

/-- The kind of the entry that a path leads to decides whether it leads to a file. -/
theorem isFile_eq_kindAt (h : tree.canonical path = .ok location) :
    tree.isFile path = (tree.kindAt location == some .file) := by
  simp only [isFile, entry?, h, kindAt, faceAt]
  cases tree.root.at? location with
  | none => rfl
  | some entry => cases entry <;> rfl

/-- The names that lie in a sound directory are those of its entries. -/
theorem mem_entries_iff {entries : List (String × Entry)} {name : String} {entry : Entry}
    (hsound : tree.root.IsSound) (h : tree.root.at? location = some (.directory entries)) :
    (name, entry) ∈ entries ↔ tree.root.at? (location ++ [name]) = some entry := by
  cases (hsound.at? h).1 with
  | directory hsorted =>
    rw [Entry.mem_iff_find? hsorted, Entry.at?_append, h, Option.bind_some, Entry.at?_cons]
    simp [Entry.at?]

namespace IsAlike

/-- A tree that is alike has grown by nothing in kind. -/
theorem growsInKind (h : tree.IsAlike other) :
    tree.GrowsInKind other (fun _ => False) fun _ => False where
  working := h.working
  kinds location := Or.inl (h.kinds location)

/-- A path stands for the same location. -/
theorem canonical_eq (h : tree.IsAlike other) (path : Path) :
    other.canonical path = tree.canonical path := by
  rw [canonical, canonical, resolve_congr h.working.symm fun spot _ =>
    ⟨(h.kinds spot).symm, h.plain spot⟩]

/-- A path leads to a file in both trees or in neither. -/
theorem isFile_eq (h : tree.IsAlike other) (path : Path) :
    other.isFile path = tree.isFile path := by
  cases hcanonical : tree.canonical path with
  | error failure => rw [isFile, isFile, entry?, entry?, h.canonical_eq, hcanonical]
  | ok location =>
    rw [isFile_eq_kindAt hcanonical, isFile_eq_kindAt ((h.canonical_eq path).trans hcanonical),
      h.kinds]

/-- A path leads to a directory in both trees or in neither. -/
theorem isDirectory_eq (h : tree.IsAlike other) (path : Path) :
    other.isDirectory path = tree.isDirectory path := by
  refine isDirectory_congr h.working (fun spot _ => h.plain spot)
    (fun spot _ => h.kinds spot ▸ h.plain spot) fun spot _ => ?_
  rw [Bool.eq_iff_iff, isDirectoryAt_iff_kindAt, isDirectoryAt_iff_kindAt, h.kinds]

end IsAlike

end FileTree

namespace ProjectFinder

/-- The visible directories in a sound directory are in ascending order of their names. -/
theorem pairwise_visibleDirectories (hsound : tree.root.IsSound) (directory : Path) :
    (visibleDirectories tree directory).Pairwise (· < ·) := by
  rw [visibleDirectories]
  split
  · exact .nil
  · rename_i entries hentries
    obtain ⟨location, _, hat⟩ := FileTree.entries_eq_ok_iff.mp hentries
    cases (hsound.at? hat).1 with
    | directory hsorted => exact hsorted.sublist (List.filter_sublist.map _)

/-- A visible directory in a directory is one by its kind. -/
theorem mem_visibleDirectories_iff (hsound : tree.root.IsSound) {name : String} :
    name ∈ visibleDirectories tree directory ↔ isHidden name = false ∧
      ∃ location, tree.canonical directory = .ok location ∧
        tree.kindAt (location ++ [name]) = some .directory := by
  rw [visibleDirectories]
  cases hentries : tree.entries directory with
  | error failure =>
    refine iff_of_false (by simp) ?_
    rintro ⟨_, location, hlocation, hkind⟩
    rw [← FileTree.isDirectoryAt_iff_kindAt] at hkind
    have haround := FileTree.isDirectoryAt_dropLast hkind
    rw [List.dropLast_concat] at haround
    obtain ⟨entries, hat⟩ := FileTree.exists_entries haround
    rw [FileTree.entries_eq_ok_iff.mpr ⟨location, hlocation, hat⟩] at hentries
    cases hentries
  | ok entries =>
    obtain ⟨location, hlocation, hat⟩ := FileTree.entries_eq_ok_iff.mp hentries
    simp only [List.mem_map, List.mem_filter, Bool.and_eq_true, Bool.not_eq_true', hlocation,
      Except.ok.injEq, exists_eq_left']
    constructor
    · rintro ⟨⟨found, entry⟩, ⟨hmem, hdirectory, hvisible⟩, rfl⟩
      refine ⟨hvisible, ?_⟩
      rw [← FileTree.isDirectoryAt_iff_kindAt, FileTree.isDirectoryAt,
        (FileTree.mem_entries_iff hsound hat).mp hmem]
      exact hdirectory
    · rintro ⟨hvisible, hkind⟩
      rw [← FileTree.isDirectoryAt_iff_kindAt] at hkind
      obtain ⟨inner, hinner⟩ := FileTree.exists_entries hkind
      exact ⟨⟨name, .directory inner⟩,
        ⟨(FileTree.mem_entries_iff hsound hat).mpr hinner, rfl, hvisible⟩, rfl⟩

/-- A visible directory in a directory is found there. -/
theorem isDirectory_of_visible (hsound : tree.root.IsSound) {name : String}
    (h : name ∈ visibleDirectories tree directory) :
    tree.isDirectory (directory.join name) = true := by
  obtain ⟨location, hlocation, hplace⟩ := canonical_of_visible hsound h
  obtain ⟨_, found, hfound, hkind⟩ := (mem_visibleDirectories_iff hsound).mp h
  obtain rfl := Except.ok.inj (hlocation.symm.trans hfound)
  rw [FileTree.isDirectory, FileTree.entry?, hplace]
  exact FileTree.isDirectoryAt_iff_kindAt.mpr hkind

/-- The visible directories in a directory are the same in two sound trees with the same directories
there. -/
theorem visibleDirectories_congr (hsound : tree.root.IsSound) (hother : other.root.IsSound)
    (h : ∀ name location, (other.canonical directory = .ok location ∧
        other.isDirectoryAt (location ++ [name]) = true) ↔
      tree.canonical directory = .ok location ∧ tree.isDirectoryAt (location ++ [name]) = true) :
    visibleDirectories other directory = visibleDirectories tree directory := by
  refine List.Pairwise.eq_of_mem_iff (pairwise_visibleDirectories hother directory)
    (pairwise_visibleDirectories hsound directory) fun name => ?_
  rw [mem_visibleDirectories_iff hother, mem_visibleDirectories_iff hsound]
  simp only [← FileTree.isDirectoryAt_iff_kindAt, h]

end ProjectFinder

/-- The build that is looked for in a directory is a directory. -/
theorem isDirectory_of_buildRoot? (hsound : tree.root.IsSound) {root : Path}
    (h : buildRoot? tree directory = some root) : tree.isDirectory root = true := by
  have hbelow : ∀ levels directory, buildRootBelow? tree levels directory = some root →
      tree.isDirectory root = true := by
    intro levels
    induction levels with
    | zero => exact fun directory h => by cases h
    | succ levels ih =>
      intro directory h
      rw [buildRootBelow?] at h
      split at h
      · rename_i only honly
        obtain ⟨name, hname, rfl⟩ := exists_visible_of_sourceDirectories honly
        split at h
        · cases h
          exact ProjectFinder.isDirectory_of_visible hsound hname
        · exact ih _ h
      · cases h
  rw [buildRoot?] at h
  split at h
  · cases h
  · exact hbelow _ _ h

/-- The build of a directory is the same in two trees with the same visible directories and build
scripts. -/
theorem buildRoot?_congr
    (hvisible : ∀ directory, ProjectFinder.visibleDirectories other directory =
      ProjectFinder.visibleDirectories tree directory)
    (hscript : ∀ directory, hasBuildScript other directory = hasBuildScript tree directory)
    (directory : Path) : buildRoot? other directory = buildRoot? tree directory := by
  have hbelow : ∀ levels directory,
      buildRootBelow? other levels directory = buildRootBelow? tree levels directory := by
    intro levels
    induction levels with
    | zero => exact fun directory => rfl
    | succ levels ih =>
      intro directory
      rw [buildRootBelow?, buildRootBelow?, sourceDirectories, sourceDirectories, hvisible]
      split
      · rw [hscript, ih]
      · rfl
  rw [buildRoot?, buildRoot?, hscript, hbelow]

namespace Executor

variable {π ρ : Type} {executor : Executor π ρ} {project : Project} {mode : RunMode}

/-- The names of the projects of a batch are in ascending order. -/
theorem pairwise_names_of_batch (hsound : tree.root.IsSound) (executor : Executor π ρ)
    (corpus : Path) :
    (executor.projects tree corpus .batch).Pairwise fun project other =>
      project.name < other.name := by
  have hsorted := ProjectFinder.pairwise_visibleDirectories hsound corpus
  rw [projects, ProjectFinder.discover, if_neg (by simp [ProjectFinder.isSingle])]
  refine List.Pairwise.filterMap _
    (fun first second hlt project hproject other hother => ?_) hsorted
  simp only at hproject hother
  split at hproject <;> cases hproject
  split at hother <;> cases hother
  exact hlt

end Executor

end CorpusFacts
