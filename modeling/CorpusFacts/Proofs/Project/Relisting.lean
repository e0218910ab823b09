import CorpusFacts.Proofs.Files.Likeness
import CorpusFacts.Proofs.Project.Expansion
import Mathlib.Data.List.Find

/-!
# Modules in a later tree

The search for modules reads settings scripts inside the boundary of a project, and of all other
directories it sees only whether they are there. So it has the same result in two trees in which the
directories that it comes to are seen alike. A later tree that keeps what lies inside the boundary
is such a tree, unless the search failed because of a directory that is there now. That takes a
listed path that leads through a directory that is new.
-/

namespace CorpusFacts

open FileTree (Keeps LeadsInto)

variable {tree later : FileTree} {boundary : List String} {path root : Path}

/-- One of some names is that of a file in a directory of both trees or of neither. -/
theorem any_isFile_congr {names : List String}
    (h : ∀ name ∈ names, later.isFile (path.join name) = tree.isFile (path.join name)) :
    (names.any fun name => later.isFile (path.join name)) =
      names.any fun name => tree.isFile (path.join name) := by
  rw [Bool.eq_iff_iff, List.any_eq_true, List.any_eq_true]
  exact exists_congr fun name => and_congr_right fun hname => by rw [h name hname]

/-- A file with the same bytes in two trees is parsed alike. -/
theorem SourceUnit.ofFile_eq (h : later.read path = tree.read path)
    (relativePath module : String) :
    ofFile later path relativePath module = ofFile tree path relativePath module := by
  rw [ofFile, ofFile, h]

/-- The names of settings scripts are plain. -/
theorem Gradle.isPlainName_of_mem_settingsScripts {name : String} (h : name ∈ settingsScripts) :
    IsPlainName name := by
  revert name
  decide

/-- The modules of a directory are listed alike in two trees with the same settings scripts. -/
theorem Gradle.listedModules_eq
    (hfile : ∀ name ∈ settingsScripts,
      later.isFile (path.join name) = tree.isFile (path.join name))
    (hread : ∀ name ∈ settingsScripts, tree.isFile (path.join name) = true →
      later.read (path.join name) = tree.read (path.join name)) :
    listedModules later path = listedModules tree path := by
  have hfound : (settingsScripts.find? fun name => later.isFile (path.join name)) =
      settingsScripts.find? fun name => tree.isFile (path.join name) := List.find?_congr hfile
  delta listedModules
  rw [hfound]
  split
  · rfl
  · rename_i name hname
    rw [SourceUnit.ofFile_eq
      (hread name (List.mem_of_find?_eq_some hname) (by simpa using List.find?_some hname))]

/-- The modules of a directory that is kept are listed as before. -/
theorem Gradle.listedModules_eq_of_keeps (h : tree.Keeps later boundary)
    (hpath : tree.LeadsInto boundary path) :
    listedModules later path = listedModules tree path := by
  have hsame : ∀ name ∈ settingsScripts, tree.ShowsSame later (path.join name) :=
    fun name hname => h.showsSame (hpath.join (isPlainName_of_mem_settingsScripts hname))
  exact listedModules_eq (fun name hname => (hsame name hname).isFile_eq)
    fun name hname _ => (hsame name hname).read_eq

namespace ProjectFinder

variable {finder : ProjectFinder} {pending : List Listing} {known final other : Expansion}
  {failure? otherFailure? : Option ProjectError} {location : List String} {listing : Listing}
  {found : Module} {directory : Path} {module : String}

/-- A listing of a directory that is reached from the root of a project. -/
structure IsListed (finder : ProjectFinder) (tree : FileTree) (boundary : List String)
    (root : Path) (listing : Listing) : Prop where
  /-- The directory is reached. -/
  reached : Reached finder tree boundary root listing.directory listing.module
  /-- The directory lists the path. -/
  listed : ∃ paths, finder.lister tree listing.directory = .ok paths ∧ listing.listed ∈ paths

/-- No path that is listed in a project leads through a directory that is new. -/
def ListsNothingNew (finder : ProjectFinder) (tree later : FileTree) (boundary : List String)
    (root : Path) : Prop :=
  ∀ listing, IsListed finder tree boundary root listing → ∀ found, listing.module? = some found →
    ∀ spot ∈ tree.spotsOf found.root, later.isDirectoryAt spot = true →
      tree.isDirectoryAt spot = true

/-- The listings of a directory that is reached are listed. -/
theorem IsListed.of_reached {paths : List String}
    (hreached : Reached finder tree boundary root directory module)
    (hlister : finder.lister tree directory = .ok paths) :
    ∀ listing ∈ listingsOf directory module paths, IsListed finder tree boundary root listing := by
  intro listing hlisting
  obtain ⟨listed, hlisted, rfl⟩ := List.mem_map.mp hlisting
  exact ⟨hreached, paths, hlister, hlisted⟩

/-- A module that is listed and lies inside the boundary is reached. -/
theorem IsListed.reaches (h : IsListed finder tree boundary root listing)
    (hmodule : listing.module? = some found) (hdirectory : tree.isDirectory found.root = true)
    (hlocation : tree.canonical found.root = .ok location) (hinside : boundary <+: location) :
    Reached finder tree boundary root found.root found.relative := by
  obtain ⟨paths, hlister, hlisted⟩ := h.listed
  exact .listed h.reached hlister hlisted hmodule hdirectory hlocation hinside

/-- What a directory lists, with its module path; nothing if its modules cannot be listed. -/
def listingsIn (finder : ProjectFinder) (tree : FileTree) (place : Path × String) : List Listing :=
  listingsOf place.1 place.2 ((finder.lister tree place.1).toOption.getD [])

/-- Some directories with their module paths are all that is reached if the root is among them, and
what they list are directories among them, or no directories inside. -/
theorem Reached.mem_of_closed {places : List (Path × String)} (hroot : (root, rootModule) ∈ places)
    (hclosed : ∀ place ∈ places, ∀ listing ∈ listingsIn finder tree place,
      ∀ found ∈ listing.module?, (found.root, found.relative) ∈ places ∨
        ∀ location ∈ (tree.canonical found.root).toOption, ¬ boundary <+: location)
    (h : Reached finder tree boundary root directory module) : (directory, module) ∈ places := by
  induction h with
  | root => exact hroot
  | @listed directory module listed paths found location _ hlister hlisted hmodule _ hlocation
      hinside ih =>
    have hlisting : (⟨directory, module, listed⟩ : Listing) ∈
        listingsIn finder tree (directory, module) := by
      rw [listingsIn, hlister]
      exact List.mem_map_of_mem hlisted
    refine (hclosed _ ih _ hlisting found hmodule).resolve_right fun houtside => ?_
    exact houtside location (by rw [hlocation]; rfl) hinside

/-- What is listed in a project is listed by one of the directories that are reached. -/
theorem IsListed.mem_of_closed {places : List (Path × String)} (hroot : (root, rootModule) ∈ places)
    (hclosed : ∀ place ∈ places, ∀ listing ∈ listingsIn finder tree place,
      ∀ found ∈ listing.module?, (found.root, found.relative) ∈ places ∨
        ∀ location ∈ (tree.canonical found.root).toOption, ¬ boundary <+: location)
    (h : IsListed finder tree boundary root listing) :
    ∃ place ∈ places, listing ∈ listingsIn finder tree place := by
  obtain ⟨paths, hlister, hlisted⟩ := h.listed
  refine ⟨_, h.reached.mem_of_closed hroot hclosed, ?_⟩
  rw [listingsIn, hlister]
  exact List.mem_map_of_mem hlisted

/-- A path that a project lists leads to a directory as before. -/
theorem ListsNothingNew.isDirectory_eq (hnew : ListsNothingNew finder tree later boundary root)
    (h : tree.Keeps later boundary) (hlisting : IsListed finder tree boundary root listing)
    (hmodule : listing.module? = some found) :
    later.isDirectory found.root = tree.isDirectory found.root := by
  refine FileTree.isDirectory_congr h.working (fun spot _ => h.plain spot)
    (fun spot _ => h.laterPlain spot) fun spot hspot => ?_
  rw [Bool.eq_iff_iff]
  exact ⟨hnew listing hlisting found hmodule spot hspot, h.directories spot⟩

/-- A path to a directory stands for the same location in a later tree. -/
theorem canonical_of_isDirectory (h : tree.Keeps later boundary)
    (hdirectory : tree.isDirectory path = true) : later.canonical path = tree.canonical path := by
  have hplain : tree.AvoidsLinks path := fun spot _ => h.plain spot
  obtain ⟨_, hpassable, hplace⟩ := hplain.isDirectory_iff.mp hdirectory
  have hway : ∀ spot ∈ tree.spotsOf path, tree.isDirectoryAt spot = true := by
    intro spot hspot
    rcases FileTree.isDirectoryAt_of_isPassable hpassable spot hspot with hat | rfl
    · exact hat
    · exact hplace
  rw [FileTree.canonical, FileTree.canonical, FileTree.resolve_congr h.working.symm
    fun spot hspot => ⟨h.kindAt_eq (Or.inl (hway spot hspot)), h.plain spot⟩]

/-- A path leads to a directory still. -/
theorem isDirectory_of_keeps (h : tree.Keeps later boundary)
    (hdirectory : tree.isDirectory path = true) : later.isDirectory path = true := by
  obtain ⟨location, hlocation, hat⟩ := FileTree.location_of_isDirectory hdirectory
  rw [FileTree.isDirectory, FileTree.entry?, canonical_of_isDirectory h hdirectory, hlocation]
  exact h.directories location hat

/-- A directory is seen alike in a second tree: its path leads out of the boundary in both trees, or
it leads to the same location, where the same is listed. -/
inductive SeenAlike (finder : ProjectFinder) (tree second : FileTree) (boundary : List String)
    (path : Path) : Prop
  /-- The directory lies outside in both trees. -/
  | outside {place otherPlace : List String} (hdirectory : second.isDirectory path = true)
      (hplace : tree.canonical path = .ok place) (hother : second.canonical path = .ok otherPlace)
      (houtside : ¬ boundary <+: place) (hotherOutside : ¬ boundary <+: otherPlace) :
      SeenAlike finder tree second boundary path
  /-- The directory is the same in both trees. -/
  | same {place : List String} (hdirectory : second.isDirectory path = true)
      (hplace : tree.canonical path = .ok place) (hother : second.canonical path = .ok place)
      (hlister : boundary <+: place → finder.lister second path = finder.lister tree path) :
      SeenAlike finder tree second boundary path

/-- A search goes the same way in a second tree if the directories that it comes to are seen alike
there, and the one that it fails for is missing there as well. -/
theorem Searches.congr {second : FileTree}
    (hsearch : Searches finder tree boundary pending known final failure?)
    (hpending : ∀ listing ∈ pending, IsListed finder tree boundary root listing)
    (hmissing : ∀ path listed, failure? = some (.missingModule path listed) →
      second.isDirectory path = false)
    (halike : ∀ listing found, IsListed finder tree boundary root listing →
      listing.module? = some found → tree.isDirectory found.root = true →
      SeenAlike finder tree second boundary found.root) :
    Searches finder second boundary pending known final failure? := by
  induction hsearch with
  | ends => exact .ends
  | blank hblank _ ih => exact .blank hblank (ih (List.forall_mem_cons.mp hpending).2 hmissing)
  | missing hmodule _ => exact .missing hmodule (hmissing _ _ rfl)
  | passes hmodule hdirectory hlocation hpast _ ih =>
    obtain ⟨hfirst, hrest⟩ := List.forall_mem_cons.mp hpending
    cases halike _ _ hfirst hmodule hdirectory with
    | outside hthere _ hother _ hotherOutside =>
      exact .passes hmodule hthere hother (Or.inl hotherOutside) (ih hrest hmissing)
    | same hthere hplace hother _ =>
      obtain rfl := Except.ok.inj (hlocation.symm.trans hplace)
      exact .passes hmodule hthere hother hpast (ih hrest hmissing)
  | unlisted hmodule hdirectory hlocation hinside hfresh hfails =>
    obtain ⟨hfirst, _⟩ := List.forall_mem_cons.mp hpending
    cases halike _ _ hfirst hmodule hdirectory with
    | outside _ hplace _ houtside _ =>
      obtain rfl := Except.ok.inj (hlocation.symm.trans hplace)
      exact absurd hinside houtside
    | same hthere hplace hother hlister =>
      obtain rfl := Except.ok.inj (hlocation.symm.trans hplace)
      exact .unlisted hmodule hthere hother hinside hfresh ((hlister hinside).trans hfails)
  | enters hmodule hdirectory hlocation hinside hfresh hlists _ ih =>
    obtain ⟨hfirst, hrest⟩ := List.forall_mem_cons.mp hpending
    cases halike _ _ hfirst hmodule hdirectory with
    | outside _ hplace _ houtside _ =>
      obtain rfl := Except.ok.inj (hlocation.symm.trans hplace)
      exact absurd hinside houtside
    | same hthere hplace hother hlister =>
      obtain rfl := Except.ok.inj (hlocation.symm.trans hplace)
      refine .enters hmodule hthere hother hinside hfresh ((hlister hinside).trans hlists)
        (ih ?_ hmissing)
      have hreached := hfirst.reaches hmodule hdirectory hlocation hinside
      exact List.forall_mem_append.mpr ⟨IsListed.of_reached hreached hlists, hrest⟩

/-- A search that fails for a missing directory has come to a listing of it. -/
theorem Searches.exists_missing {listed : String}
    (hsearch : Searches finder tree boundary pending known final
      (some (.missingModule path listed)))
    (hpending : ∀ listing ∈ pending, IsListed finder tree boundary root listing) :
    ∃ listing found, IsListed finder tree boundary root listing ∧ listing.module? = some found ∧
      found.root = path ∧ tree.isDirectory path = false := by
  generalize hfailure : some (ProjectError.missingModule path listed) = failure? at hsearch
  induction hsearch with
  | ends => cases hfailure
  | blank _ _ ih => exact ih (List.forall_mem_cons.mp hpending).2 hfailure
  | missing hmodule hmissing =>
    cases hfailure
    exact ⟨_, _, hpending _ (List.mem_cons_self ..), hmodule, rfl, hmissing⟩
  | passes _ _ _ _ _ ih => exact ih (List.forall_mem_cons.mp hpending).2 hfailure
  | unlisted => cases hfailure
  | enters hmodule hdirectory hlocation hinside _ hlists _ ih =>
    obtain ⟨hfirst, hrest⟩ := List.forall_mem_cons.mp hpending
    refine ih (fun listing hlisting => ?_) hfailure
    rcases List.mem_append.mp hlisting with hlisting | hlisting
    · exact IsListed.of_reached (hfirst.reaches hmodule hdirectory hlocation hinside) hlists
        listing hlisting
    · exact hrest listing hlisting

/-- A search has one result. -/
theorem Searches.unique (h : Searches finder tree boundary pending known final failure?)
    (hother : Searches finder tree boundary pending known other otherFailure?) :
    other = final ∧ otherFailure? = failure? := by
  induction h generalizing other otherFailure? with
  | ends =>
    cases hother
    exact ⟨rfl, rfl⟩
  | blank hblank _ ih =>
    cases hother with
    | blank _ hrest => exact ih hrest
    | _ => simp_all
  | missing hmodule hmissing => cases hother <;> simp_all
  | passes hmodule hdirectory hlocation hpast _ ih =>
    cases hother with
    | passes _ _ _ _ hrest => exact ih hrest
    | _ => simp_all
  | unlisted hmodule hdirectory hlocation hinside hfresh hfails => cases hother <;> simp_all
  | enters hmodule hdirectory hlocation hinside hfresh hlists _ ih =>
    cases hother with
    | enters hsameModule _ hsameLocation _ _ hsameLists hrest =>
      obtain rfl := Option.some.inj (hmodule.symm.trans hsameModule)
      obtain rfl := Except.ok.inj (hlocation.symm.trans hsameLocation)
      obtain rfl := Except.ok.inj (hlists.symm.trans hsameLists)
      exact ih hrest
    | _ => simp_all

/-- A search from the root of a project has one result. -/
theorem SearchesFrom.unique
    (h : SearchesFrom finder tree boundary directory module known final failure?)
    (hother : SearchesFrom finder tree boundary directory module known other otherFailure?) :
    other = final ∧ otherFailure? = failure? := by
  cases h with
  | unlisted hfails => cases hother <;> simp_all
  | lists hlists hsearch =>
    cases hother with
    | unlisted hfails => simp_all
    | lists hsameLists hsame =>
      obtain rfl := Except.ok.inj (hlists.symm.trans hsameLists)
      exact hsearch.unique hsame

/-- The modules of a project are the same in a second tree if the directories that it lists are seen
alike there, and one that is missing is missing there as well. -/
theorem expandModules_congr {second : FileTree} {project : Project}
    (hroot : tree.canonical project.root = .ok location)
    (hotherRoot : second.canonical project.root = .ok location)
    (hboundary : tree.canonical project.boundary = .ok boundary)
    (hotherBoundary : second.canonical project.boundary = .ok boundary)
    (hlister : finder.lister second project.root = finder.lister tree project.root)
    (hmissing : ∀ path listed,
      finder.expandModules tree project = .error (.missingModule path listed) →
        second.isDirectory path = false)
    (halike : ∀ listing found, IsListed finder tree boundary project.root listing →
      listing.module? = some found → tree.isDirectory found.root = true →
      SeenAlike finder tree second boundary found.root) :
    finder.expandModules second project = finder.expandModules tree project := by
  obtain ⟨accepted, failure?, hsearch, hresult⟩ := expandModules_searches finder hroot hboundary
  obtain ⟨otherAccepted, otherFailure?, hotherSearch, hotherResult⟩ :=
    expandModules_searches finder hotherRoot hotherBoundary
  have hsame : SearchesFrom finder second boundary project.root rootModule ⟨[location], []⟩
      accepted failure? := by
    cases hsearch with
    | unlisted hfails => exact .unlisted (hlister.trans hfails)
    | lists hlists hsearch =>
      refine .lists (hlister.trans hlists)
        (hsearch.congr (IsListed.of_reached .root hlists) (fun path listed hfails => ?_) halike)
      refine hmissing path listed ?_
      rw [hresult, hfails]
      rfl
  obtain ⟨rfl, rfl⟩ := hsame.unique hotherSearch
  rw [hotherResult, hresult]

/-- The modules of a project are the same in a later tree, unless a directory is there now that was
missing. -/
theorem expandModules_eq {project : Project} (h : tree.Keeps later boundary)
    (hmissing : ∀ path listed,
      finder.expandModules tree project = .error (.missingModule path listed) →
        later.isDirectory path = false)
    (hlister : ∀ path, tree.LeadsInto boundary path →
      finder.lister later path = finder.lister tree path)
    (hroot : tree.LeadsInto boundary project.root)
    (hrootLocation : tree.canonical project.root = .ok location)
    (hboundary : tree.LeadsInto boundary project.boundary)
    (hboundaryLocation : tree.canonical project.boundary = .ok boundary) :
    finder.expandModules later project = finder.expandModules tree project := by
  refine expandModules_congr hrootLocation (h.canonical_eq hroot ▸ hrootLocation) hboundaryLocation
    (h.canonical_eq hboundary ▸ hboundaryLocation) (hlister _ hroot) hmissing ?_
  intro listing found _ _ hdirectory
  obtain ⟨place, hplace, _⟩ := FileTree.location_of_isDirectory hdirectory
  refine .same (isDirectory_of_keeps h hdirectory) hplace
    ((canonical_of_isDirectory h hdirectory).trans hplace) fun hinside => hlister _ ?_
  exact .of_canonical (fun spot _ => h.plain spot) hplace hinside

/-- A project whose modules are not found for a missing directory lists it. -/
theorem exists_listing_of_missing {project : Project} {listed : String}
    (hfails : finder.expandModules tree project = .error (.missingModule path listed))
    (hroot : tree.canonical project.root = .ok location)
    (hboundary : tree.canonical project.boundary = .ok boundary) :
    ∃ listing found, IsListed finder tree boundary project.root listing ∧
      listing.module? = some found ∧ found.root = path ∧ tree.isDirectory path = false := by
  obtain ⟨accepted, hsearch⟩ := exists_searches_of_error hfails hroot hboundary
  cases hsearch with
  | lists hlists hsearch => exact hsearch.exists_missing (IsListed.of_reached .root hlists)

end ProjectFinder

end CorpusFacts
