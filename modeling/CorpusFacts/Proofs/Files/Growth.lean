import CorpusFacts.Proofs.Files.Preservation
import CorpusFacts.Proofs.Files.Ways

/-!
# How trees grow

Making directories and writing files turns a tree into one that has everything the first had: new
directories come up, files are written, and all else is seen as before. What paths lead through
stays, so that a way that could be taken can still be taken.
-/

namespace CorpusFacts.FileTree

/-- One tree grows into another: directories are made at some locations where there was nothing, and
files are written at others, where there was a file or nothing. -/
structure GrowsTo (tree later : FileTree) (made written : List String → Prop) : Prop where
  /-- The working directory is the same. -/
  working : later.working = tree.working
  /-- Every location is seen as before, or it has a new directory, or a file that was written. -/
  faces : ∀ location, later.faceAt location = tree.faceAt location ∨
    (made location ∧ tree.faceAt location = none ∧
      later.faceAt location = some .directory) ∨
    (written location ∧ (∃ content, later.faceAt location = some (.file content)) ∧
      (tree.faceAt location = none ∨ ∃ content, tree.faceAt location = some (.file content)))

variable {tree later last : FileTree} {made written moreMade moreWritten : List String → Prop}
  {followLast asDirectory : Bool} {links : Nat} {location directory place : List String}
  {steps : List (List Char)} {path : Path} {name : String} {content : ByteArray}

namespace GrowsTo

/-- A tree grows into itself. -/
theorem refl (tree : FileTree) (made written : List String → Prop) :
    tree.GrowsTo tree made written where
  working := rfl
  faces _ := Or.inl rfl

/-- What grows may be said to grow at more locations. -/
theorem mono (h : tree.GrowsTo later made written)
    (hmade : ∀ location, made location → moreMade location)
    (hwritten : ∀ location, written location → moreWritten location) :
    tree.GrowsTo later moreMade moreWritten where
  working := h.working
  faces location := (h.faces location).imp_right
    (Or.imp (fun ⟨hmadeHere, hrest⟩ => ⟨hmade location hmadeHere, hrest⟩)
      fun ⟨hwrittenHere, hrest⟩ => ⟨hwritten location hwrittenHere, hrest⟩)

/-- A tree that grows and grows on has grown. -/
theorem trans (h : tree.GrowsTo later made written) (hlast : later.GrowsTo last made written) :
    tree.GrowsTo last made written where
  working := hlast.working.trans h.working
  faces location := by
    rcases hlast.faces location with heq | ⟨hmade, hnone, hnew⟩ | ⟨hwritten, hfile, hbefore⟩
    · rw [heq]
      exact h.faces location
    · rcases h.faces location with hsame | ⟨_, _, hdirectory⟩ | ⟨_, ⟨content, hfile⟩, _⟩
      · exact Or.inr (Or.inl ⟨hmade, hsame.symm.trans hnone, hnew⟩)
      · rw [hdirectory] at hnone
        cases hnone
      · rw [hfile] at hnone
        cases hnone
    · right; right
      refine ⟨hwritten, hfile, ?_⟩
      rcases h.faces location with hsame | ⟨_, _, hdirectory⟩ | ⟨_, _, hfirst⟩
      · rwa [hsame] at hbefore
      · rw [hdirectory] at hbefore
        rcases hbefore with hnone | ⟨content, hcontent⟩
        · cases hnone
        · cases hcontent
      · exact hfirst

/-- What there is keeps its kind. -/
theorem kindAt_eq (h : tree.GrowsTo later made written) (hsome : tree.kindAt location ≠ none) :
    later.kindAt location = tree.kindAt location := by
  rw [kindAt, Ne, Option.map_eq_none_iff] at hsome
  rcases h.faces location with hsame | ⟨_, hnone, _⟩ | ⟨_, ⟨new, hnew⟩, hold⟩
  · rw [kindAt, kindAt, hsame]
  · exact absurd hnone hsome
  · obtain ⟨old, hold⟩ := hold.resolve_left hsome
    rw [kindAt, kindAt, hnew, hold]
    rfl

/-- Directories stay directories. -/
theorem isDirectoryAt (h : tree.GrowsTo later made written)
    (hdirectory : tree.isDirectoryAt location = true) : later.isDirectoryAt location = true := by
  rw [isDirectoryAt_iff_kindAt] at hdirectory ⊢
  rw [h.kindAt_eq (by simp [hdirectory]), hdirectory]

/-- No links are made. -/
theorem kindAt_ne_link (h : tree.GrowsTo later made written)
    (hplain : tree.kindAt location ≠ some .link) : later.kindAt location ≠ some .link := by
  rcases h.faces location with hsame | ⟨_, _, hnew⟩ | ⟨_, ⟨new, hnew⟩, _⟩
  · rwa [kindAt, hsame]
  · simp [kindAt, hnew, Entry.Face.kind]
  · simp [kindAt, hnew, Entry.Face.kind]

/-- Files that are not written keep their bytes, and no other ones come up. -/
theorem file_iff (h : tree.GrowsTo later made written) (hwritten : ¬ written location)
    (content : ByteArray) : later.root.at? location = some (.file content) ↔
      tree.root.at? location = some (.file content) := by
  rw [at?_eq_file_iff, at?_eq_file_iff]
  rcases h.faces location with hsame | ⟨_, hnone, hnew⟩ | ⟨hhere, _⟩
  · rw [hsame]
  · simp [hnone, hnew]
  · exact absurd hhere hwritten

/-- Paths start where they started. -/
theorem startOf (h : tree.GrowsTo later made written) (path : Path) :
    later.startOf path = tree.startOf path := by
  rw [FileTree.startOf, FileTree.startOf, h.working]

/-- Paths lead to the same places. -/
theorem placeOf (h : tree.GrowsTo later made written) (path : Path) :
    later.placeOf path = tree.placeOf path := by
  rw [FileTree.placeOf, FileTree.placeOf, h.startOf]

/-- A path that meets no link meets none later. -/
theorem avoidsLinks (h : tree.GrowsTo later made written) (hplain : tree.AvoidsLinks path) :
    later.AvoidsLinks path := by
  intro spot hspot
  rw [spotsOf, h.startOf] at hspot
  exact h.kindAt_ne_link (hplain spot hspot)

/-- Steps that can be taken can be taken later. -/
theorem isPassable (h : tree.GrowsTo later made written)
    (hpassable : tree.IsPassable location steps) : later.IsPassable location steps := by
  induction steps generalizing location with
  | nil => trivial
  | cons step steps ih =>
    obtain ⟨hdirectory, hshort, hrest⟩ := hpassable
    exact ⟨h.isDirectoryAt hdirectory, hshort, ih hrest⟩

end GrowsTo

/-- One tree has become another as far as the kinds of entries tell: nothing changes its kind, new
directories are at some locations only, and new files at others. -/
structure GrowsInKind (tree later : FileTree) (made written : List String → Prop) : Prop where
  /-- The working directory is the same. -/
  working : later.working = tree.working
  /-- Every location has its kind, or it has a new directory or a new file. -/
  kinds : ∀ location, later.kindAt location = tree.kindAt location ∨
    (made location ∧ tree.kindAt location = none ∧
      later.kindAt location = some .directory) ∨
    (written location ∧ tree.kindAt location = none ∧ later.kindAt location = some .file)

/-- A tree that grows does so in kind. -/
theorem GrowsTo.inKind (h : tree.GrowsTo later made written) :
    tree.GrowsInKind later made written where
  working := h.working
  kinds location := by
    rcases h.faces location with hsame | ⟨hmade, hnone, hnew⟩ | ⟨hwritten, ⟨new, hnew⟩, hold⟩
    · exact Or.inl (by rw [kindAt, kindAt, hsame])
    · exact Or.inr (Or.inl ⟨hmade, by simp [kindAt, hnone],
        by simp [kindAt, hnew, Entry.Face.kind]⟩)
    · rcases hold with hnone | ⟨old, hold⟩
      · exact Or.inr (Or.inr ⟨hwritten, by simp [kindAt, hnone],
          by simp [kindAt, hnew, Entry.Face.kind]⟩)
      · exact Or.inl (by simp [kindAt, hnew, hold, Entry.Face.kind])

namespace GrowsInKind

/-- What grows may be said to grow at more locations. -/
theorem mono (h : tree.GrowsInKind later made written)
    (hmade : ∀ location, made location → moreMade location)
    (hwritten : ∀ location, written location → moreWritten location) :
    tree.GrowsInKind later moreMade moreWritten where
  working := h.working
  kinds location := (h.kinds location).imp_right
    (Or.imp (fun ⟨hmadeHere, hrest⟩ => ⟨hmade location hmadeHere, hrest⟩)
      fun ⟨hwrittenHere, hrest⟩ => ⟨hwritten location hwrittenHere, hrest⟩)

/-- A tree that grows and grows on has grown. -/
theorem trans (h : tree.GrowsInKind later made written)
    (hlast : later.GrowsInKind last made written) : tree.GrowsInKind last made written where
  working := hlast.working.trans h.working
  kinds location := by
    rcases h.kinds location with hsame | ⟨hmade, hnone, hnew⟩ | ⟨hwritten, hnone, hnew⟩
    · rw [← hsame]
      exact hlast.kinds location
    · rcases hlast.kinds location with hkept | ⟨_, hlater, _⟩ | ⟨_, hlater, _⟩
      · exact Or.inr (Or.inl ⟨hmade, hnone, hkept.trans hnew⟩)
      · rw [hnew] at hlater
        cases hlater
      · rw [hnew] at hlater
        cases hlater
    · rcases hlast.kinds location with hkept | ⟨_, hlater, _⟩ | ⟨_, hlater, _⟩
      · exact Or.inr (Or.inr ⟨hwritten, hnone, hkept.trans hnew⟩)
      · rw [hnew] at hlater
        cases hlater
      · rw [hnew] at hlater
        cases hlater

/-- What there is keeps its kind. -/
theorem kindAt_eq (h : tree.GrowsInKind later made written)
    (hsome : tree.kindAt location ≠ none) : later.kindAt location = tree.kindAt location := by
  rcases h.kinds location with hsame | ⟨_, hnone, _⟩ | ⟨_, hnone, _⟩
  · exact hsame
  · exact absurd hnone hsome
  · exact absurd hnone hsome

/-- Directories stay directories. -/
theorem isDirectoryAt (h : tree.GrowsInKind later made written)
    (hdirectory : tree.isDirectoryAt location = true) : later.isDirectoryAt location = true := by
  rw [isDirectoryAt_iff_kindAt] at hdirectory ⊢
  rw [h.kindAt_eq (by simp [hdirectory]), hdirectory]

/-- No links are made. -/
theorem kindAt_ne_link (h : tree.GrowsInKind later made written)
    (hplain : tree.kindAt location ≠ some .link) : later.kindAt location ≠ some .link := by
  rcases h.kinds location with hsame | ⟨_, _, hnew⟩ | ⟨_, _, hnew⟩
  · rwa [hsame]
  · simp [hnew]
  · simp [hnew]

/-- Paths start where they started. -/
theorem startOf (h : tree.GrowsInKind later made written) (path : Path) :
    later.startOf path = tree.startOf path := by
  rw [FileTree.startOf, FileTree.startOf, h.working]

/-- Paths lead to the same places. -/
theorem placeOf (h : tree.GrowsInKind later made written) (path : Path) :
    later.placeOf path = tree.placeOf path := by
  rw [FileTree.placeOf, FileTree.placeOf, h.startOf]

end GrowsInKind

/-- What nothing lies in has nothing below it. -/
theorem at?_below_eq_none {entry : Entry} (hempty : ∀ name, entry.at? [name] = none)
    (name : String) (rest : List String) : entry.at? (name :: rest) = none := by
  rw [← List.singleton_append, Entry.at?_append, hempty, Option.bind_none]

/-- Putting an entry that nothing lies in where there is nothing, or a file, is seen at its place
only. -/
theorem faceAt_put {entry : Entry} (hdirectory : tree.isDirectoryAt directory = true)
    (hempty : ∀ name, entry.at? [name] = none)
    (hplace : tree.faceAt (directory ++ [name]) = none ∨
      ∃ content, tree.faceAt (directory ++ [name]) = some (.file content))
    (location : List String) :
    (tree.put directory name entry).faceAt location =
      if location = directory ++ [name] then some entry.face else tree.faceAt location := by
  by_cases hbelow : directory ++ [name] <+: location
  · obtain ⟨rest, rfl⟩ := hbelow
    rw [List.append_assoc, List.singleton_append, faceAt_put_inside hdirectory]
    cases rest with
    | nil => rw [if_pos rfl]; rfl
    | cons next rest =>
      have hold : ∀ found, tree.root.at? (directory ++ [name]) = some found →
          ∀ name, found.at? [name] = none := by
        intro found hfound next
        rcases hplace with hnone | ⟨content, hfile⟩
        · rw [at?_eq_none_iff.mpr hnone] at hfound
          cases hfound
        · rw [at?_eq_file_iff.mpr hfile] at hfound
          cases hfound
          rfl
      have hnothing : tree.root.at? (directory ++ name :: next :: rest) = none := by
        rw [List.append_cons, Entry.at?_append]
        cases hfound : tree.root.at? (directory ++ [name]) with
        | none => rfl
        | some found => exact at?_below_eq_none (hold found hfound) next rest
      rw [at?_below_eq_none hempty, if_neg (by simp), at?_eq_none_iff.mp hnothing]
      rfl
  · rw [faceAt_put_outside hdirectory hbelow, if_neg]
    rintro rfl
    exact hbelow List.prefix_rfl

/-- A directory that is put somewhere is there. -/
theorem isDirectoryAt_put (hdirectory : tree.isDirectoryAt directory = true) (name : String) :
    (tree.put directory name (.directory [])).isDirectoryAt (directory ++ [name]) = true := by
  rw [isDirectoryAt_iff_faceAt, faceAt_put_inside hdirectory]
  rfl

/-- A directory that is put where there is nothing makes the tree grow. -/
theorem growsTo_put_directory (hdirectory : tree.isDirectoryAt directory = true)
    (hnone : tree.root.at? (directory ++ [name]) = none) :
    tree.GrowsTo (tree.put directory name (.directory [])) (· = directory ++ [name])
      fun _ => False where
  working := rfl
  faces location := by
    have hnone := at?_eq_none_iff.mp hnone
    rw [faceAt_put hdirectory (fun _ => rfl) (Or.inl hnone)]
    split
    · rename_i hlocation
      exact Or.inr (Or.inl ⟨hlocation, hlocation ▸ hnone, rfl⟩)
    · exact Or.inl rfl

/-- A file that is put where there is nothing, or a file, makes the tree grow. -/
theorem growsTo_put_file (hdirectory : tree.isDirectoryAt directory = true)
    (hplace : tree.root.at? (directory ++ [name]) = none ∨
      ∃ old, tree.root.at? (directory ++ [name]) = some (.file old)) (content : ByteArray) :
    tree.GrowsTo (tree.put directory name (.file content)) (fun _ => False)
      (· = directory ++ [name]) where
  working := rfl
  faces location := by
    have hplace : tree.faceAt (directory ++ [name]) = none ∨
        ∃ old, tree.faceAt (directory ++ [name]) = some (.file old) :=
      hplace.imp at?_eq_none_iff.mp fun ⟨old, hold⟩ => ⟨old, at?_eq_file_iff.mp hold⟩
    rw [faceAt_put hdirectory (fun _ => rfl) hplace]
    split
    · rename_i hlocation
      exact Or.inr (Or.inr ⟨hlocation, ⟨content, rfl⟩, hlocation ▸ hplace⟩)
    · exact Or.inl rfl

/-- A name that steps lead to and that does not exist is looked up in a directory. -/
theorem absent_of_resolveSteps
    {follow : List String → List (List Char) → Except FileFailure Place}
    (hfollow : ∀ start rest, follow start rest = .ok (.absent directory name asDirectory) →
      tree.isDirectoryAt directory = true ∧ tree.root.at? (directory ++ [name]) = none)
    (h : tree.resolveSteps followLast follow location steps =
      .ok (.absent directory name asDirectory)) :
    tree.isDirectoryAt directory = true ∧ tree.root.at? (directory ++ [name]) = none := by
  fun_induction tree.resolveSteps followLast follow location steps with
  | case1 => cases h
  | case2 => cases h
  | case3 _ _ _ _ _ ih => exact ih h
  | case4 _ _ _ _ _ _ ih => exact ih h
  | case5 => cases h
  | case6 location step steps hdirectory _ _ _ _ hnone =>
    simp only [Except.ok.injEq, Place.absent.injEq] at h
    obtain ⟨rfl, rfl, _⟩ := h
    exact ⟨by simpa using hdirectory, hnone⟩
  | case7 => cases h
  | case8 => cases h
  | case9 => exact hfollow _ _ h
  | case10 _ _ _ _ _ _ _ _ _ _ _ ih => exact ih h

/-- A name that a path leads to and that does not exist is looked up in a directory. -/
theorem absent_of_resolve
    (h : tree.resolve path followLast = .ok (.absent directory name asDirectory)) :
    tree.isDirectoryAt directory = true ∧ tree.root.at? (directory ++ [name]) = none := by
  have hfrom : ∀ links location steps,
      tree.resolveFrom followLast links location steps = .ok (.absent directory name asDirectory) →
        tree.isDirectoryAt directory = true ∧ tree.root.at? (directory ++ [name]) = none := by
    intro links
    induction links with
    | zero =>
      intro location steps hresolved
      exact absent_of_resolveSteps (fun _ _ herror => by cases herror) hresolved
    | succ links ih =>
      intro location steps hresolved
      exact absent_of_resolveSteps ih hresolved
  rw [resolve] at h
  split at h
  · cases h
  · split at h
    · cases h
    · exact hfrom _ _ _ h

/-- Making a directory makes the tree grow where its path leads. -/
theorem growsTo_of_makeDirectory (h : tree.makeDirectory path = .ok later) :
    ∃ directory name asDirectory,
      tree.resolve path false = .ok (.absent directory name asDirectory) ∧
      tree.GrowsTo later (· = directory ++ [name]) fun _ => False := by
  obtain ⟨directory, name, asDirectory, hfound, rfl⟩ := exists_of_makeDirectory h
  obtain ⟨hdirectory, hnone⟩ := absent_of_resolve hfound
  exact ⟨directory, name, asDirectory, hfound, growsTo_put_directory hdirectory hnone⟩

/-- Making nested directories makes the tree grow, no matter whether it fails, where the paths lead
when their turn comes. -/
theorem growsTo_makeNested {paths : List Path}
    (hmade : ∀ path ∈ paths, ∀ later directory name asDirectory,
      tree.GrowsTo later made (fun _ => False) →
      later.resolve path false = .ok (.absent directory name asDirectory) →
      made (directory ++ [name])) :
    tree.GrowsTo (tree.makeNested paths).1 made fun _ => False := by
  induction paths with
  | nil => exact .refl _ _ _
  | cons path outer ih =>
    have hstep : ∀ later last, tree.GrowsTo later made (fun _ => False) →
        later.makeDirectory path = .ok last → later.GrowsTo last made fun _ => False := by
      intro later last hlater hlast
      obtain ⟨directory, name, asDirectory, hresolve, hgrows⟩ := growsTo_of_makeDirectory hlast
      have hhere := hmade path (List.mem_cons_self ..) later directory name asDirectory hlater
        hresolve
      refine hgrows.mono (fun location hlocation => ?_) fun _ h => h
      rwa [hlocation]
    have houter := ih fun inner hinner => hmade inner (List.mem_cons_of_mem _ hinner)
    rw [makeNested]
    split
    · rename_i later hlater
      exact hstep tree later (.refl _ _ _) hlater
    · split
      · rename_i later failure hlater
        rwa [hlater] at houter
      · rename_i later hlater
        rw [hlater] at houter
        split
        · rename_i last hlast
          exact houter.trans (hstep later last houter hlast)
        · exact houter
    · exact .refl _ _ _

/-- Writing a file makes the tree grow by that file: it lies where the path leads, which is a name
that does not exist or an earlier file. -/
theorem growsTo_of_write (h : tree.write path content = .ok later) :
    ∃ place, tree.GrowsTo later (fun _ => False) (· = place) ∧
      later.root.at? place = some (.file content) ∧
      ((∃ directory name, tree.resolve path true = .ok (.absent directory name false) ∧
          place = directory ++ [name]) ∨
        tree.resolve path true = .ok (.existing place)) := by
  rw [write] at h
  obtain ⟨found, hfound, h⟩ := exists_of_bind_eq_ok h
  have hresolve := resolve_of_writtenPlace hfound
  have hput : ∀ directory name, tree.isDirectoryAt directory = true →
      (tree.put directory name (.file content)).root.at? (directory ++ [name]) =
        some (.file content) := by
    intro directory name hdirectory
    rw [at?_eq_file_iff, faceAt_put_inside hdirectory]
    rfl
  cases found with
  | absent directory name asDirectory =>
    cases asDirectory with
    | true => cases h
    | false =>
      cases h
      obtain ⟨hdirectory, hnone⟩ := absent_of_resolve hresolve
      exact ⟨_, growsTo_put_file hdirectory (Or.inl hnone) content, hput _ _ hdirectory,
        Or.inl ⟨directory, name, hresolve, rfl⟩⟩
  | existing location =>
    simp only at h
    split at h
    · rename_i old name hold hname
      cases h
      obtain ⟨around, rfl⟩ := List.getLast?_eq_some_iff.mp hname
      have hdirectory := isDirectoryAt_of_at? hold
      rw [List.dropLast_concat]
      exact ⟨_, growsTo_put_file hdirectory (Or.inr ⟨old, hold⟩) content, hput _ _ hdirectory,
        Or.inr hresolve⟩
    · cases h

/-- A file that is written by a path that meets no link lies at its place and can be read there. -/
theorem AvoidsLinks.growsTo_of_write (hplain : tree.AvoidsLinks path)
    (h : tree.write path content = .ok later) :
    tree.GrowsTo later (fun _ => False) (· = tree.placeOf path) ∧
      later.root.at? (tree.placeOf path) = some (.file content) ∧
      IsResolvable path ∧ tree.IsPassable (tree.startOf path) path.segments := by
  obtain ⟨place, hgrows, hfile, hresolve⟩ := FileTree.growsTo_of_write h
  rcases hresolve with ⟨directory, name, habsent, rfl⟩ | hexisting
  · obtain ⟨hplace, _, _, hpassable⟩ := hplain.of_resolve_absent habsent
    rw [hplace] at hgrows hfile
    exact ⟨hgrows, hfile, isResolvable_of_resolve habsent, hpassable rfl⟩
  · obtain ⟨rfl, hpassable⟩ := hplain.of_resolve_existing hexisting
    exact ⟨hgrows, hfile, isResolvable_of_resolve hexisting, hpassable⟩

/-- What lies at a place can be read by a path that can be taken to it without meeting a link. -/
theorem AvoidsLinks.read_eq (hplain : tree.AvoidsLinks path) (hresolvable : IsResolvable path)
    (hpassable : tree.IsPassable (tree.startOf path) path.segments)
    (hfile : tree.root.at? (tree.placeOf path) = some (.file content)) :
    tree.canonical path = .ok (tree.placeOf path) ∧ tree.read path = .ok content := by
  have hcanonical := hplain.canonical_eq hresolvable hpassable (by simp [hfile])
  refine ⟨hcanonical, ?_⟩
  rw [read, hcanonical]
  simp only [bind, Except.bind, hfile]

/-! ## Paths through growing trees

A tree that grows keeps its links as they are and its directories where they are. So a path that
leads somewhere leads to the same place later, through every link on its way.
-/

namespace GrowsTo

/-- A link keeps its target. -/
theorem at?_link (h : tree.GrowsTo later made written) {target : String}
    (hlink : tree.root.at? location = some (.link target)) :
    later.root.at? location = some (.link target) := by
  rw [at?_eq_link_iff] at hlink ⊢
  rcases h.faces location with hsame | ⟨_, hnone, _⟩ | ⟨_, _, hnone | ⟨content, hfile⟩⟩
  · rw [hsame, hlink]
  · rw [hlink] at hnone
    cases hnone
  · rw [hlink] at hnone
    cases hnone
  · rw [hlink] at hfile
    cases hfile

/-- An entry that is no link has one in its place that is none. -/
theorem exists_plain (h : tree.GrowsTo later made written) {entry : Entry}
    (hentry : tree.root.at? location = some entry) (hplain : entry.isLink = false) :
    ∃ other, later.root.at? location = some other ∧ other.isLink = false := by
  have hkind : tree.kindAt location ≠ none := by
    rw [Ne, ← at?_eq_none_iff_kindAt, hentry]
    simp
  have hlink : tree.kindAt location ≠ some .link := by
    rw [Ne, kindAt_eq_link_iff, hentry]
    rintro ⟨target, htarget⟩
    cases htarget
    cases hplain
  have hlater := h.kindAt_eq hkind
  cases hother : later.root.at? location with
  | none =>
    rw [at?_eq_none_iff_kindAt, hlater] at hother
    exact absurd hother hkind
  | some other =>
    refine ⟨other, rfl, ?_⟩
    cases other with
    | link target =>
      exact absurd (hlater ▸ kindAt_eq_link_iff.mpr ⟨target, hother⟩) hlink
    | file content => rfl
    | directory entries => rfl

/-- Steps that lead to a place lead there later. -/
theorem leads (h : tree.GrowsTo later made written)
    (hleads : tree.Leads followLast links location steps place) :
    later.Leads followLast links location steps place := by
  induction hleads with
  | here => exact .here
  | stays hdirectory hidle _ ih => exact .stays (h.isDirectoryAt hdirectory) hidle ih
  | climbs hdirectory _ ih => exact .climbs (h.isDirectoryAt hdirectory) ih
  | enters hdirectory hname hentry hplain _ ih =>
    obtain ⟨other, hother, hotherPlain⟩ := h.exists_plain hentry hplain
    exact .enters (h.isDirectoryAt hdirectory) hname hother hotherPlain ih
  | follows hdirectory hname hentry hfollow _ ih =>
    exact .follows (h.isDirectoryAt hdirectory) hname (h.at?_link hentry) hfollow ih
  | stops hdirectory hname hentry hlast =>
    exact .stops (h.isDirectoryAt hdirectory) hname (h.at?_link hentry) hlast

/-- A path that leads to a location leads there later. -/
theorem canonical_eq (h : tree.GrowsTo later made written)
    (hpath : tree.canonical path = .ok location) : later.canonical path = .ok location := by
  rw [canonical_eq_ok_iff] at hpath ⊢
  rw [h.startOf]
  exact ⟨hpath.1, h.leads hpath.2⟩

/-- A path that leads to a directory leads to one later. -/
theorem isDirectory (h : tree.GrowsTo later made written) (hpath : tree.isDirectory path = true) :
    later.isDirectory path = true := by
  obtain ⟨location, hcanonical, hdirectory⟩ := location_of_isDirectory hpath
  rw [FileTree.isDirectory, entry?, h.canonical_eq hcanonical]
  exact h.isDirectoryAt hdirectory

end GrowsTo

end CorpusFacts.FileTree
