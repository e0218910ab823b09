import CorpusFacts.Proofs.Files.Growth
import Mathlib.Data.List.Sort

/-!
# What a directory keeps

A directory keeps what lies in it while a tree changes elsewhere. Paths that come into the directory
by way of other directories are then resolved as before, and find what they found before. They are
all that is looked at in a directory with plain names.
-/

namespace CorpusFacts

namespace Entry

/-- The entry at a location of a directory is found by its first name. -/
theorem at?_cons (entries : List (String × Entry)) (name : String) (location : List String) :
    (Entry.directory entries).at? (name :: location) =
      (find? name entries).bind (·.at? location) := by
  rw [at?]
  cases find? name entries <;> rfl

mutual

/-- Whether there is no link in an entry, by a look at everything in it. -/
def checkPlain : Entry → Bool
  | .file _ => true
  | .link _ => false
  | .directory entries => checkPlainOf entries

/-- Whether there is no link in some entries. -/
def checkPlainOf : List (String × Entry) → Bool
  | [] => true
  | (_, entry) :: rest => entry.checkPlain && checkPlainOf rest

end

/-- What is found in entries without links is without links. -/
theorem checkPlain_of_find? {name : String} {entry : Entry} {entries : List (String × Entry)}
    (h : checkPlainOf entries = true) (hfound : find? name entries = some entry) :
    entry.checkPlain = true := by
  induction entries with
  | nil => cases hfound
  | cons first rest ih =>
    obtain ⟨other, inner⟩ := first
    rw [checkPlainOf, Bool.and_eq_true] at h
    rw [find?_cons] at hfound
    split at hfound
    · cases hfound
      exact h.1
    · exact ih h.2 hfound

/-- Nothing in an entry without links is a link. -/
theorem at?_ne_link_of_checkPlain {entry : Entry} (h : entry.checkPlain = true)
    (location : List String) (target : String) : entry.at? location ≠ some (.link target) := by
  induction location generalizing entry with
  | nil =>
    intro heq
    obtain rfl : entry = .link target := by simpa [at?] using heq
    cases h
  | cons name location ih =>
    cases entry with
    | file content => simp [at?]
    | link other => simp [at?]
    | directory entries =>
      rw [at?_cons]
      cases hfound : find? name entries with
      | none => simp
      | some inner => exact ih (checkPlain_of_find? (by rwa [checkPlain] at h) hfound)

/-- In a sound directory the entries are what is found by their names. -/
theorem mem_iff_find? {name : String} {entry : Entry} {entries : List (String × Entry)}
    (hsorted : (entries.map (·.1)).Pairwise (· < ·)) :
    (name, entry) ∈ entries ↔ find? name entries = some entry :=
  ⟨find?_of_mem hsorted, mem_of_find?⟩

/-- Entries in ascending order of their names are the same if the same ones are found. -/
theorem eq_of_find? {first second : List (String × Entry)}
    (hfirst : (first.map (·.1)).Pairwise (· < ·)) (hsecond : (second.map (·.1)).Pairwise (· < ·))
    (h : ∀ name, find? name first = find? name second) : first = second := by
  have hasymm : Std.Asymm fun one other : String × Entry => one.1 < other.1 :=
    ⟨fun _ _ => lt_asymm⟩
  refine List.Pairwise.eq_of_mem_iff (List.pairwise_map.mp hfirst) (List.pairwise_map.mp hsecond) ?_
  rintro ⟨name, entry⟩
  rw [mem_iff_find? hfirst, mem_iff_find? hsecond, h]

/-- Sound entries are the same if they are seen alike everywhere. -/
theorem IsSound.eq_of_faces {first second : Entry} (hfirst : first.IsSound)
    (hsecond : second.IsSound)
    (h : ∀ location, (first.at? location).map (·.face) = (second.at? location).map (·.face)) :
    first = second := by
  induction hfirst generalizing second with
  | @file content =>
    have hface : (Entry.file content).face = second.face := by simpa [Entry.at?] using h []
    cases second <;> simp_all [face]
  | @link target =>
    have hface : (Entry.link target).face = second.face := by simpa [Entry.at?] using h []
    cases second <;> simp_all [face]
  | @directory entries hsorted _ _ ih =>
    have hface : (Entry.directory entries).face = second.face := by simpa [Entry.at?] using h []
    cases hsecond with
    | file => simp [face] at hface
    | link => simp [face] at hface
    | @directory others hothers _ hotherEntries =>
      refine congrArg Entry.directory (eq_of_find? hsorted hothers fun name => ?_)
      have hinner := fun location => h (name :: location)
      simp only [at?_cons] at hinner
      cases hfound : find? name entries with
      | none =>
        cases hother : find? name others with
        | none => rfl
        | some other => simpa [hfound, hother, Entry.at?] using hinner []
      | some entry =>
        cases hother : find? name others with
        | none => simpa [hfound, hother, Entry.at?] using hinner []
        | some other =>
          refine congrArg some (ih name entry (mem_of_find? hfound)
            (hotherEntries name other (mem_of_find? hother)) fun location => ?_)
          simpa [hfound, hother] using hinner location

end Entry

namespace FileTree

variable {tree later : FileTree} {inside location place : List String} {path : Path}
  {name : String} {followLast : Bool}

/-- Whether there are no links in a tree is seen by a look at everything in it. -/
theorem kindAt_ne_link_of_checkPlain (h : tree.root.checkPlain = true) (location : List String) :
    tree.kindAt location ≠ some .link := by
  rw [Ne, kindAt_eq_link_iff]
  rintro ⟨target, htarget⟩
  exact Entry.at?_ne_link_of_checkPlain h location target htarget

/-- A path shows the same in two trees: it stands for the same location, where the same entry
lies. -/
structure ShowsSame (tree second : FileTree) (path : Path) : Prop where
  /-- The location is the same. -/
  canonical : second.canonical path = tree.canonical path
  /-- The entry is the same. -/
  entry : ∀ location, tree.canonical path = .ok location →
    second.root.at? location = tree.root.at? location

namespace ShowsSame

variable {second : FileTree}

/-- The path leads to the same entry. -/
theorem entry?_eq (h : tree.ShowsSame second path) : second.entry? path = tree.entry? path := by
  unfold entry?
  rw [h.canonical]
  split
  · rename_i location hlocation
    exact h.entry location hlocation
  · rfl

/-- The path leads to a file in both trees or in neither. -/
theorem isFile_eq (h : tree.ShowsSame second path) : second.isFile path = tree.isFile path := by
  rw [isFile, isFile, h.entry?_eq]

/-- The path leads to a directory in both trees or in neither. -/
theorem isDirectory_eq (h : tree.ShowsSame second path) :
    second.isDirectory path = tree.isDirectory path := by
  rw [isDirectory, isDirectory, h.entry?_eq]

/-- The path leads to a file with the same bytes. -/
theorem read_eq (h : tree.ShowsSame second path) : second.read path = tree.read path := by
  rw [read, read, h.canonical]
  cases hlocation : tree.canonical path with
  | error failure => rfl
  | ok location => simp only [bind, Except.bind, h.entry location hlocation]

/-- The path leads to a directory with the same entries. -/
theorem entries_eq (h : tree.ShowsSame second path) : second.entries path = tree.entries path := by
  rw [entries, entries, h.canonical]
  cases hlocation : tree.canonical path with
  | error failure => rfl
  | ok location => simp only [bind, Except.bind, h.entry location hlocation]

end ShowsSame

/-- A later tree keeps what lies in a directory: the entry is the same, and so is the working
directory; directories elsewhere are still there; and there are no links. -/
structure Keeps (tree later : FileTree) (inside : List String) : Prop where
  /-- The working directory is the same. -/
  working : later.working = tree.working
  /-- The directory is the same. -/
  inside : later.root.at? inside = tree.root.at? inside
  /-- Directories stay. -/
  directories : ∀ location, tree.isDirectoryAt location = true → later.isDirectoryAt location = true
  /-- There were no links. -/
  plain : ∀ location, tree.kindAt location ≠ some .link
  /-- There are no links. -/
  laterPlain : ∀ location, later.kindAt location ≠ some .link

/-- A path leads into a directory: by way of other directories, to a place inside of it. -/
structure LeadsInto (tree : FileTree) (inside : List String) (path : Path) : Prop where
  /-- Each location on the way is one of a directory, or lies inside. -/
  way : ∀ spot ∈ tree.spotsOf path, tree.isDirectoryAt spot = true ∨ inside <+: spot
  /-- The path ends inside. -/
  place : inside <+: tree.placeOf path

/-- The steps of a way that can be taken are taken from directories. -/
theorem isDirectoryAt_of_isPassable {steps : List (List Char)}
    (h : tree.IsPassable location steps) :
    ∀ spot ∈ spotsFrom location steps,
      tree.isDirectoryAt spot = true ∨ spot = placeFrom location steps := by
  induction steps generalizing location with
  | nil =>
    intro spot hspot
    exact Or.inr (List.mem_singleton.mp hspot)
  | cons step steps ih =>
    obtain ⟨hdirectory, _, hrest⟩ := h
    intro spot hspot
    rcases List.mem_cons.mp hspot with rfl | hspot
    · exact Or.inl hdirectory
    · exact ih hrest spot hspot

/-- A path that stands for a location is resolved to it. -/
theorem resolve_of_canonical (h : tree.canonical path = .ok location) :
    tree.resolve path true = .ok (.existing location) := by
  rw [canonical] at h
  split at h
  · rename_i found hfound
    rwa [Except.ok.inj h] at hfound
  · cases h
  · cases h

/-- Steps can be taken as long as they are taken from directories. -/
theorem isPassable_congr {steps : List (List Char)}
    (h : ∀ spot ∈ spotsFrom location steps, tree.isDirectoryAt spot = later.isDirectoryAt spot) :
    tree.IsPassable location steps ↔ later.IsPassable location steps := by
  induction steps generalizing location with
  | nil => rfl
  | cons step steps ih =>
    rw [IsPassable, IsPassable, h location (mem_spotsFrom_start _ _),
      ih fun spot hspot => h spot (List.mem_cons_of_mem _ hspot)]

/-- A path that meets no link stands for its place if and only if it has a text, its steps can be
taken, and something lies there. -/
theorem AvoidsLinks.canonical_eq_ok_iff (h : tree.AvoidsLinks path) :
    tree.canonical path = .ok location ↔ location = tree.placeOf path ∧ IsResolvable path ∧
      tree.IsPassable (tree.startOf path) path.segments ∧ tree.root.at? location ≠ none := by
  constructor
  · intro hcanonical
    have hresolve := resolve_of_canonical hcanonical
    obtain ⟨hplace, hpassable⟩ := h.of_resolve_existing hresolve
    obtain ⟨entry, hentry, _⟩ := exists_plain_of_canonical hcanonical
    exact ⟨hplace, isResolvable_of_resolve hresolve, hpassable, by simp [hentry]⟩
  · rintro ⟨rfl, hresolvable, hpassable, hsome⟩
    exact h.canonical_eq hresolvable hpassable hsome

/-- A path leads to a directory without meeting a link if and only if it has a text, its steps can
be taken, and there is a directory at its place. -/
theorem AvoidsLinks.isDirectory_iff (h : tree.AvoidsLinks path) :
    tree.isDirectory path = true ↔ IsResolvable path ∧
      tree.IsPassable (tree.startOf path) path.segments ∧
      tree.isDirectoryAt (tree.placeOf path) = true := by
  constructor
  · intro hdirectory
    obtain ⟨location, hlocation, hat⟩ := location_of_isDirectory hdirectory
    obtain ⟨rfl, hresolvable, hpassable, _⟩ := h.canonical_eq_ok_iff.mp hlocation
    exact ⟨hresolvable, hpassable, hat⟩
  · rintro ⟨hresolvable, hpassable, hat⟩
    have hcanonical := h.canonical_eq hresolvable hpassable (at?_ne_none_of_isDirectoryAt hat)
    rw [isDirectory, entry?, hcanonical]
    exact hat

/-- Two trees have the same directories on a way without links. Then it leads to a directory in both
or in neither. -/
theorem isDirectory_congr (hworking : later.working = tree.working)
    (hplain : tree.AvoidsLinks path) (hlaterPlain : later.AvoidsLinks path)
    (h : ∀ spot ∈ tree.spotsOf path, later.isDirectoryAt spot = tree.isDirectoryAt spot) :
    later.isDirectory path = tree.isDirectory path := by
  have hstart : later.startOf path = tree.startOf path := by rw [startOf, startOf, hworking]
  rw [Bool.eq_iff_iff, hplain.isDirectory_iff, hlaterPlain.isDirectory_iff, placeOf, placeOf,
    hstart, h _ (placeFrom_mem_spotsFrom _ _), isPassable_congr h]

/-- A path leads into a directory if it stands for a location inside. -/
theorem LeadsInto.of_canonical (hplain : tree.AvoidsLinks path)
    (h : tree.canonical path = .ok location) (hinside : inside <+: location) :
    tree.LeadsInto inside path := by
  obtain ⟨rfl, hpassable⟩ := hplain.of_resolve_existing (resolve_of_canonical h)
  refine ⟨fun spot hspot => ?_, hinside⟩
  rcases isDirectoryAt_of_isPassable hpassable spot hspot with hdirectory | rfl
  · exact Or.inl hdirectory
  · exact Or.inr hinside

/-- A plain name leads on into the directory. -/
theorem LeadsInto.join (h : tree.LeadsInto inside path) (hname : IsPlainName name) :
    tree.LeadsInto inside (path.join name) := by
  obtain ⟨hplace, hspots⟩ := spotsOf_join_name tree path hname
  have hinside : inside <+: tree.placeOf path ++ [name] :=
    h.place.trans (List.prefix_append _ _)
  refine ⟨fun spot hspot => ?_, by rwa [hplace]⟩
  rcases hspots spot hspot with hspot | rfl | rfl
  · exact h.way spot hspot
  · exact Or.inr h.place
  · exact Or.inr hinside

namespace Keeps

/-- Everything inside is the same. -/
theorem at?_eq (h : tree.Keeps later inside) (hinside : inside <+: location) :
    later.root.at? location = tree.root.at? location := by
  obtain ⟨rest, rfl⟩ := hinside
  rw [Entry.at?_append, Entry.at?_append, h.inside]

/-- Directories elsewhere, and everything inside, are of the same kind. -/
theorem kindAt_eq (h : tree.Keeps later inside)
    (hlocation : tree.isDirectoryAt location = true ∨ inside <+: location) :
    tree.kindAt location = later.kindAt location := by
  rcases hlocation with hdirectory | hinside
  · rw [isDirectoryAt_iff_kindAt.mp hdirectory,
      isDirectoryAt_iff_kindAt.mp (h.directories location hdirectory)]
  · rw [kindAt, kindAt, faceAt, faceAt, h.at?_eq hinside]

/-- A path into the directory is resolved as before. -/
theorem resolve_eq (h : tree.Keeps later inside) (hpath : tree.LeadsInto inside path)
    (followLast : Bool) : later.resolve path followLast = tree.resolve path followLast :=
  (resolve_congr h.working.symm fun spot hspot =>
    ⟨h.kindAt_eq (hpath.way spot hspot), h.plain spot⟩).symm

/-- A path into the directory stands for the same location. -/
theorem canonical_eq (h : tree.Keeps later inside) (hpath : tree.LeadsInto inside path) :
    later.canonical path = tree.canonical path := by
  rw [canonical, canonical, h.resolve_eq hpath]

/-- What a path into the directory is resolved to lies inside. -/
theorem prefix_of_resolve (h : tree.Keeps later inside) (hpath : tree.LeadsInto inside path)
    (hresolve : tree.resolve path followLast = .ok (.existing place)) : inside <+: place := by
  have hplain : tree.AvoidsLinks path := fun spot _ => h.plain spot
  rw [(hplain.of_resolve_existing hresolve).1]
  exact hpath.place

/-- A path into the directory stands for a location inside. -/
theorem prefix_of_canonical (h : tree.Keeps later inside) (hpath : tree.LeadsInto inside path)
    (hlocation : tree.canonical path = .ok location) : inside <+: location := by
  exact h.prefix_of_resolve hpath (resolve_of_canonical hlocation)

/-- A path into the directory shows the same. -/
theorem showsSame (h : tree.Keeps later inside) (hpath : tree.LeadsInto inside path) :
    tree.ShowsSame later path where
  canonical := h.canonical_eq hpath
  entry _ hlocation := h.at?_eq (h.prefix_of_canonical hpath hlocation)

/-- A walk in the directory starts at the same entry. -/
theorem walkStart_eq (h : tree.Keeps later inside) (hpath : tree.LeadsInto inside path) :
    later.walkStart path = tree.walkStart path := by
  rw [walkStart, walkStart, h.resolve_eq hpath, h.canonical_eq hpath]
  cases hresolve : tree.resolve path false with
  | error failure => rfl
  | ok found =>
    cases found with
    | absent directory name asDirectory => rfl
    | existing location =>
      simp only [h.at?_eq (h.prefix_of_resolve hpath hresolve)]
      cases hentry : tree.root.at? location with
      | none => rfl
      | some entry =>
        cases entry with
        | link target => exact absurd (kindAt_eq_link_iff.mpr ⟨target, hentry⟩) (h.plain location)
        | file content => rfl
        | directory entries => rfl

end Keeps

end FileTree

end CorpusFacts
