import CorpusFacts.Proofs.Project.Search
import Mathlib.Data.List.Forall2
import Mathlib.Data.List.Nodup

/-!
# The modules that an expansion finds

Expanding a project always ends. The modules it accepts are different directories inside the
boundary, none of them the root, under different module paths, and each is reached from the root
through listed paths. The expansion succeeds exactly where the modules of the root and of each
accepted module can be listed and every listed path names a directory; then all of them are
accounted for.
-/

namespace CorpusFacts.ProjectFinder

/-- The directories that are reached from the root of a project through listed paths, inside the
boundary, with their module paths. -/
inductive Reached (finder : ProjectFinder) (tree : FileTree) (boundary : List String)
    (root : Path) : Path → String → Prop
  /-- The root is reached. -/
  | root : Reached finder tree boundary root root rootModule
  /-- A directory inside the boundary is reached where one that is reached lists it. -/
  | listed {directory : Path} {module listed : String} {paths : List String} {found : Module}
      {location : List String} (hreached : Reached finder tree boundary root directory module)
      (hlister : finder.lister tree directory = .ok paths) (hlisted : listed ∈ paths)
      (hmodule : (⟨directory, module, listed⟩ : Listing).module? = some found)
      (hdirectory : tree.isDirectory found.root = true)
      (hlocation : tree.canonical found.root = .ok location) (hinside : boundary <+: location) :
      Reached finder tree boundary root found.root found.relative

/-- A listed path is accounted for: it is blank, or it names a directory that was visited or lies
outside of the boundary. -/
def Settled (tree : FileTree) (boundary : List String) (visited : List (List String))
    (directory : Path) (listed : String) : Prop :=
  IsBlankListing listed ∨ ∃ path location, modulePath? listed = some path ∧
    tree.isDirectory (directory.join path) = true ∧
    tree.canonical (directory.join path) = .ok location ∧
    (location ∈ visited ∨ ¬ boundary <+: location)

/-- The modules of a directory can be listed, and all of them are accounted for. -/
def Closed (finder : ProjectFinder) (tree : FileTree) (boundary : List String)
    (visited : List (List String)) (directory : Path) : Prop :=
  ∃ paths, finder.lister tree directory = .ok paths ∧
    ∀ listed ∈ paths, Settled tree boundary visited directory listed

/-- Why a directory stops an expansion: its modules cannot be listed, or it lists a path that names
no directory. -/
inductive Stops (finder : ProjectFinder) (tree : FileTree) (directory : Path) :
    ProjectError → Prop
  /-- The modules of the directory cannot be listed. -/
  | unlisted {error : ParseError} (hlister : finder.lister tree directory = .error error) :
      Stops finder tree directory (.unparsed error)
  /-- A listed path names no directory. -/
  | missing {paths : List String} {listed path : String}
      (hlister : finder.lister tree directory = .ok paths) (hlisted : listed ∈ paths)
      (hpath : modulePath? listed = some path)
      (hmissing : tree.isDirectory (directory.join path) = false) :
      Stops finder tree directory (.missingModule (directory.join path) listed)

variable {finder : ProjectFinder} {tree : FileTree} {boundary location : List String}
  {root directory : Path} {pending : List Listing} {known final : Expansion}
  {failure? : Option ProjectError} {module : String}

/-- The module path of a directory that is reached leads from the root to the directory. -/
theorem Reached.spelled (h : Reached finder tree boundary root directory module) :
    (directory = root ∧ module = rootModule) ∨
      (IsModulePath module ∧ directory = root.join module) := by
  induction h with
  | root => exact Or.inl ⟨rfl, rfl⟩
  | @listed directory module listed paths found _ _ _ _ hmodule _ _ _ ih =>
    obtain ⟨path, hpath, rfl⟩ := Option.map_eq_some_iff.mp hmodule
    have hmodulePath := isModulePath_of_modulePath? hpath
    right
    rcases ih with ⟨rfl, rfl⟩ | ⟨hinner, rfl⟩
    · rw [joinRelative_root]
      exact ⟨hmodulePath, rfl⟩
    · rw [joinRelative_of_isModulePath hinner hmodulePath]
      refine ⟨⟨hinner.toIsInner.append hmodulePath.toIsInner, fun heq => ?_⟩,
        Path.join_join hinner.toIsInner hmodulePath.head⟩
      have hlength := congrArg (fun text => text.toList.length) heq
      have := List.length_pos_of_ne_nil hinner.nonempty
      have := List.length_pos_of_ne_nil hmodulePath.nonempty
      simp [rootModule, String.toList_append] at hlength
      omega

/-- A module path leads to one directory only. -/
theorem Reached.unique {other : Path} (h : Reached finder tree boundary root directory module)
    (hother : Reached finder tree boundary root other module) : directory = other := by
  rcases h.spelled with ⟨hdirectory, hroot⟩ | ⟨hpath, hdirectory⟩ <;>
    rcases hother.spelled with ⟨hotherDirectory, hotherRoot⟩ | ⟨hotherPath, hotherDirectory⟩
  · rw [hdirectory, hotherDirectory]
  · exact absurd hroot hotherPath.ne_root
  · exact absurd hotherRoot hpath.ne_root
  · rw [hdirectory, hotherDirectory]

/-- What an expansion accepts: the root was visited first, then every module, at a new location
inside the boundary, and each module is reached from the root. -/
structure Accepts (finder : ProjectFinder) (tree : FileTree) (boundary location : List String)
    (root : Path) (known : Expansion) : Prop where
  /-- The root and the modules are what was visited, in this order. -/
  visited : ∃ locations, known.visited.reverse = location :: locations ∧
    List.Forall₂ (fun module location => tree.isDirectory module.root = true ∧
      tree.canonical module.root = .ok location ∧ boundary <+: location) known.modules locations
  /-- No directory is visited twice. -/
  nodup : known.visited.Nodup
  /-- The modules are reached through listed paths. -/
  reached : ∀ module ∈ known.modules,
    Reached finder tree boundary root module.root module.relative

/-- Before the search only the root is visited. -/
theorem Accepts.start (finder : ProjectFinder) (tree : FileTree) (boundary location : List String)
    (root : Path) : Accepts finder tree boundary location root ⟨[location], []⟩ where
  visited := ⟨[], rfl, .nil⟩
  nodup := List.nodup_singleton _
  reached := by simp

/-- A listing to be looked at comes from a directory that was visited. -/
structure IsPending (finder : ProjectFinder) (tree : FileTree) (boundary : List String)
    (root : Path) (known : Expansion) (listing : Listing) : Prop where
  /-- The directory is the root or a module. -/
  visited : listing.directory ∈ root :: known.modules.map (·.root)
  /-- The directory is reached through listed paths. -/
  reached : Reached finder tree boundary root listing.directory listing.module
  /-- The directory lists the path. -/
  listed : ∃ paths, finder.lister tree listing.directory = .ok paths ∧ listing.listed ∈ paths

/-- A new module is accepted where a pending listing leads to it. -/
theorem Accepts.accept {listing : Listing} {found : Module} {place : List String}
    (h : Accepts finder tree boundary location root known)
    (hlisting : IsPending finder tree boundary root known listing)
    (hmodule : listing.module? = some found) (hdirectory : tree.isDirectory found.root = true)
    (hlocation : tree.canonical found.root = .ok place) (hinside : boundary <+: place)
    (hnew : place ∉ known.visited) :
    Accepts finder tree boundary location root (known.accept place found) where
  visited := by
    obtain ⟨locations, hvisited, hmodules⟩ := h.visited
    refine ⟨locations ++ [place], by simp [Expansion.accept, hvisited], ?_⟩
    exact List.rel_append hmodules (.cons ⟨hdirectory, hlocation, hinside⟩ .nil)
  nodup := List.nodup_cons.mpr ⟨hnew, h.nodup⟩
  reached := by
    intro module hmem
    rcases List.mem_append.mp hmem with hmem | hmem
    · exact h.reached module hmem
    · obtain rfl := List.mem_singleton.mp hmem
      obtain ⟨paths, hlister, hlisted⟩ := hlisting.listed
      exact .listed hlisting.reached hlister hlisted hmodule hdirectory hlocation hinside

/-- A pending listing stays one when a module is accepted. -/
theorem IsPending.accept {listing : Listing} (h : IsPending finder tree boundary root known listing)
    (place : List String) (found : Module) :
    IsPending finder tree boundary root (known.accept place found) listing where
  visited := by
    have := h.visited
    simp only [Expansion.accept, List.map_append, List.mem_cons, List.mem_append] at this ⊢
    exact this.imp_right Or.inl
  reached := h.reached
  listed := h.listed

/-- What an accepted module lists is pending. -/
theorem Accepts.isPending {found : Module} {place : List String} {paths : List String}
    (h : Accepts finder tree boundary location root (known.accept place found))
    (hlister : finder.lister tree found.root = .ok paths) :
    ∀ listing ∈ listingsOf found.root found.relative paths,
      IsPending finder tree boundary root (known.accept place found) listing := by
  intro listing hlisting
  obtain ⟨listed, hlisted, rfl⟩ := List.mem_map.mp hlisting
  have hmem : found ∈ (known.accept place found).modules := by simp [Expansion.accept]
  exact ⟨List.mem_cons_of_mem _ (List.mem_map_of_mem hmem), h.reached found hmem,
    paths, hlister, hlisted⟩

/-- What a search accepts beyond what was accepted before it. -/
theorem Searches.accepts (h : Searches finder tree boundary pending known final failure?)
    (hknown : Accepts finder tree boundary location root known)
    (hpending : ∀ listing ∈ pending, IsPending finder tree boundary root known listing) :
    Accepts finder tree boundary location root final := by
  induction h with
  | ends => exact hknown
  | blank _ _ ih =>
    exact ih hknown fun listing hmem => hpending listing (List.mem_cons_of_mem _ hmem)
  | missing => exact hknown
  | passes _ _ _ _ _ ih =>
    exact ih hknown fun listing hmem => hpending listing (List.mem_cons_of_mem _ hmem)
  | unlisted hmodule hdirectory hlocation hinside hnew _ =>
    exact hknown.accept (hpending _ (List.mem_cons_self ..)) hmodule hdirectory hlocation hinside
      hnew
  | enters hmodule hdirectory hlocation hinside hnew hlister _ ih =>
    have haccepted := hknown.accept (hpending _ (List.mem_cons_self ..)) hmodule hdirectory
      hlocation hinside hnew
    refine ih haccepted fun listing hmem => ?_
    rcases List.mem_append.mp hmem with hmem | hmem
    · exact haccepted.isPending hlister listing hmem
    · exact (hpending listing (List.mem_cons_of_mem _ hmem)).accept _ _

/-- A search that ends accounts for every pending listing, and for all that new modules list. -/
theorem Searches.closed (h : Searches finder tree boundary pending known final none) :
    (∀ listing ∈ pending,
      Settled tree boundary final.visited listing.directory listing.listed) ∧
    ∀ module ∈ final.modules, module ∈ known.modules ∨
      Closed finder tree boundary final.visited module.root := by
  generalize hnone : (none : Option ProjectError) = ended at h
  induction h with
  | ends => exact ⟨by simp, fun module hmem => Or.inl hmem⟩
  | blank hblank _ ih =>
    obtain ⟨hsettled, hmodules⟩ := ih hnone
    refine ⟨?_, hmodules⟩
    rw [List.forall_mem_cons]
    exact ⟨Or.inl (modulePath?_eq_none_iff.mp (by simpa [Listing.module?] using hblank)), hsettled⟩
  | missing => cases hnone
  | @passes listing pending known final found place _ hmodule hdirectory hlocation hpast hrest ih =>
    obtain ⟨hsettled, hmodules⟩ := ih hnone
    obtain ⟨path, hpath, rfl⟩ := Option.map_eq_some_iff.mp hmodule
    refine ⟨?_, hmodules⟩
    rw [List.forall_mem_cons]
    refine ⟨Or.inr ⟨path, place, hpath, hdirectory, hlocation, ?_⟩, hsettled⟩
    exact hpast.symm.imp_left fun hmem => hrest.visited_suffix.subset hmem
  | unlisted => cases hnone
  | @enters listing pending known final found place paths _ hmodule hdirectory hlocation hinside
      hnew hlister hrest ih =>
    obtain ⟨hsettled, hmodules⟩ := ih hnone
    rw [List.forall_mem_append] at hsettled
    obtain ⟨hinner, hpending⟩ := hsettled
    obtain ⟨path, hpath, rfl⟩ := Option.map_eq_some_iff.mp hmodule
    have hvisited : place ∈ final.visited :=
      hrest.visited_suffix.subset (List.mem_cons_self ..)
    constructor
    · rw [List.forall_mem_cons]
      exact ⟨Or.inr ⟨path, place, hpath, hdirectory, hlocation, Or.inl hvisited⟩, hpending⟩
    · intro module hmem
      rcases hmodules module hmem with hmem | hclosed
      · rcases List.mem_append.mp hmem with hmem | hmem
        · exact Or.inl hmem
        · obtain rfl := List.mem_singleton.mp hmem
          exact Or.inr ⟨paths, hlister, fun listed hlisted =>
            hinner _ (List.mem_map_of_mem hlisted)⟩
      · exact Or.inr hclosed

/-- A search that fails is stopped by the root or by a module that it accepted. -/
theorem Searches.stopped {error : ProjectError}
    (h : Searches finder tree boundary pending known final (some error))
    (hknown : Accepts finder tree boundary location root known)
    (hpending : ∀ listing ∈ pending, IsPending finder tree boundary root known listing) :
    ∃ directory ∈ root :: final.modules.map (·.root), Stops finder tree directory error := by
  generalize hsome : some error = ended at h
  induction h with
  | ends => cases hsome
  | blank _ _ ih =>
    exact ih hknown (fun listing hmem => hpending listing (List.mem_cons_of_mem _ hmem)) hsome
  | @missing listing pending known found hmodule hmissing =>
    cases hsome
    obtain ⟨path, hpath, rfl⟩ := Option.map_eq_some_iff.mp hmodule
    have hlisting := hpending listing (List.mem_cons_self ..)
    obtain ⟨paths, hlister, hlisted⟩ := hlisting.listed
    exact ⟨listing.directory, hlisting.visited, .missing hlister hlisted hpath hmissing⟩
  | passes _ _ _ _ _ ih =>
    exact ih hknown (fun listing hmem => hpending listing (List.mem_cons_of_mem _ hmem)) hsome
  | @unlisted listing pending known found place error hmodule hdirectory hlocation hinside hnew
      hlister =>
    cases hsome
    exact ⟨found.root, by simp [Expansion.accept], .unlisted hlister⟩
  | enters hmodule hdirectory hlocation hinside hnew hlister _ ih =>
    have haccepted := hknown.accept (hpending _ (List.mem_cons_self ..)) hmodule hdirectory
      hlocation hinside hnew
    refine ih haccepted (fun listing hmem => ?_) hsome
    rcases List.mem_append.mp hmem with hmem | hmem
    · exact haccepted.isPending hlister listing hmem
    · exact (hpending listing (List.mem_cons_of_mem _ hmem)).accept _ _

/-- The directories of modules at some locations are resolved to these. -/
theorem canonical_roots {modules : List Module} {locations : List (List String)}
    (h : List.Forall₂ (fun module location => tree.isDirectory module.root = true ∧
      tree.canonical module.root = .ok location ∧ boundary <+: location) modules locations) :
    modules.map (tree.canonical ·.root) = locations.map Except.ok := by
  rw [← List.forall₂_eq_eq_eq, List.forall₂_map_left_iff, List.forall₂_map_right_iff]
  exact h.imp fun _ _ hmodule => hmodule.2.1

/-- Modules with the same module path are the same directory, so no two of them share one. -/
theorem Accepts.relatives_nodup (h : Accepts finder tree boundary location root known) :
    (known.modules.map (·.relative)).Nodup := by
  obtain ⟨locations, hvisited, hmodules⟩ := h.visited
  have hlocations : locations.Nodup := by
    have hreverse := List.nodup_reverse.mpr h.nodup
    rw [hvisited] at hreverse
    exact (List.nodup_cons.mp hreverse).2
  have hroots : (known.modules.map (tree.canonical ·.root)).Nodup := by
    rw [canonical_roots hmodules]
    exact hlocations.map fun _ _ heq => Except.ok.inj heq
  rw [List.Nodup, List.pairwise_map] at hroots ⊢
  refine hroots.imp_of_mem fun {module other} hmodule hother hne heq => hne ?_
  have hreached := h.reached module hmodule
  rw [heq] at hreached
  rw [hreached.unique (h.reached other hother)]

/-- A directory whose modules are all accounted for does not stop an expansion. -/
theorem Closed.not_stops {visited : List (List String)} {error : ProjectError}
    (h : Closed finder tree boundary visited directory) : ¬ Stops finder tree directory error := by
  obtain ⟨paths, hlister, hsettled⟩ := h
  intro hstops
  cases hstops with
  | unlisted hfails =>
    rw [hlister] at hfails
    cases hfails
  | @missing others listed path hothers hlisted hpath hmissing =>
    obtain rfl : paths = others := by simpa [hlister] using hothers
    rcases hsettled listed hlisted with hblank | ⟨found, _, hfound, hdirectory, _⟩
    · rw [modulePath?_eq_none_iff.mpr hblank] at hpath
      cases hpath
    · obtain rfl : path = found := by simpa [hpath] using hfound
      rw [hmissing] at hdirectory
      cases hdirectory

namespace SearchesFrom

/-- What the root of a project lists is pending before the search. -/
theorem isPending {paths : List String} (hlister : finder.lister tree root = .ok paths) :
    ∀ listing ∈ listingsOf root rootModule paths,
      IsPending finder tree boundary root ⟨[location], []⟩ listing := by
  intro listing hlisting
  obtain ⟨listed, hlisted, rfl⟩ := List.mem_map.mp hlisting
  exact ⟨List.mem_cons_self .., .root, paths, hlister, hlisted⟩

/-- What a search from the root of a project accepts. -/
theorem accepts
    (h : SearchesFrom finder tree boundary root rootModule ⟨[location], []⟩ final failure?) :
    Accepts finder tree boundary location root final := by
  cases h with
  | unlisted => exact .start ..
  | lists hlister hsearches => exact hsearches.accepts (.start ..) (isPending hlister)

/-- A search from the root of a project that ends accounts for all that is listed. -/
theorem closed (h : SearchesFrom finder tree boundary root rootModule ⟨[location], []⟩ final none) :
    ∀ directory ∈ root :: final.modules.map (·.root),
      Closed finder tree boundary final.visited directory := by
  cases h with
  | lists hlister hsearches =>
    obtain ⟨hsettled, hmodules⟩ := hsearches.closed
    rw [List.forall_mem_cons, List.forall_mem_map]
    constructor
    · exact ⟨_, hlister, fun listed hlisted => hsettled _ (List.mem_map_of_mem hlisted)⟩
    · exact fun module hmem => (hmodules module hmem).resolve_left (by simp)

/-- A search from the root of a project that fails is stopped by the root or by a module. -/
theorem stopped {error : ProjectError}
    (h : SearchesFrom finder tree boundary root rootModule ⟨[location], []⟩ final (some error)) :
    ∃ directory ∈ root :: final.modules.map (·.root), Stops finder tree directory error := by
  cases h with
  | unlisted hlister => exact ⟨root, List.mem_cons_self .., .unlisted hlister⟩
  | lists hlister hsearches =>
    exact hsearches.stopped (.start finder tree boundary location root) (isPending hlister)

end SearchesFrom

/-- The modules that are accepted for a project with a root at some location: directories at
locations of their own, inside the boundary, under different module paths. -/
structure Distinguishes (tree : FileTree) (boundary location : List String) (modules : List Module)
    (locations : List (List String)) : Prop where
  /-- Each module is a directory at its location, inside the boundary. -/
  located : List.Forall₂ (fun module location => tree.isDirectory module.root = true ∧
    tree.canonical module.root = .ok location ∧ boundary <+: location) modules locations
  /-- The locations differ from each other and from that of the root. -/
  distinct : (location :: locations).Nodup
  /-- The module paths differ from each other. -/
  relatives : (modules.map (·.relative)).Nodup

/-- Each module that is accepted is a directory inside the boundary. -/
theorem Distinguishes.located_of_mem {modules : List Module} {locations : List (List String)}
    {module : Module} (h : Distinguishes tree boundary location modules locations)
    (hmem : module ∈ modules) :
    ∃ place, tree.isDirectory module.root = true ∧ tree.canonical module.root = .ok place ∧
      boundary <+: place := by
  have hlocated := h.located
  clear h
  induction hlocated with
  | nil => cases hmem
  | cons hfirst _ ih =>
    rcases List.mem_cons.mp hmem with rfl | hmem
    · exact ⟨_, hfirst⟩
    · exact ih hmem

/-- The modules that an expansion accepts are distinguished by the locations visited. -/
theorem Accepts.distinguishes (h : Accepts finder tree boundary location root known) :
    ∃ locations, Distinguishes tree boundary location known.modules locations ∧
      ∀ place, place ∈ known.visited ↔ place ∈ location :: locations := by
  obtain ⟨locations, hvisited, hmodules⟩ := h.visited
  refine ⟨locations, ⟨hmodules, ?_, h.relatives_nodup⟩, fun place => ?_⟩
  · rw [← hvisited]
    exact List.nodup_reverse.mpr h.nodup
  · rw [← hvisited, List.mem_reverse]

/-- An expansion of a project whose directories can be resolved has the result of a search. -/
theorem expandModules_searches (finder : ProjectFinder) {project : Project}
    (hroot : tree.canonical project.root = .ok location)
    (hboundary : tree.canonical project.boundary = .ok boundary) :
    ∃ accepted failure?,
      SearchesFrom finder tree boundary project.root rootModule ⟨[location], []⟩ accepted failure? ∧
      finder.expandModules tree project =
        (accepted.outcome failure?).map fun found => { project with modules := found.modules } := by
  -- one level more than there are directories is enough for the search
  obtain ⟨accepted, failure?, hsearch, hresult⟩ :=
    expandFrom_searches finder tree boundary (tree.root.directoryCount + 1) project.root rootModule
      ⟨[location], []⟩ (List.nodup_singleton _) (by omega)
  refine ⟨accepted, failure?, hsearch, ?_⟩
  simp only [expandModules, ProjectFinder.location, hroot, hboundary, Except.mapError, bind,
    Except.bind, hresult]
  cases failure? <;> rfl

/-- An expansion succeeds with the modules that a search without failure accepts. -/
theorem exists_searches_of_ok {project expanded : Project}
    (h : finder.expandModules tree project = .ok expanded)
    (hroot : tree.canonical project.root = .ok location)
    (hboundary : tree.canonical project.boundary = .ok boundary) :
    ∃ accepted,
      SearchesFrom finder tree boundary project.root rootModule ⟨[location], []⟩ accepted none ∧
      expanded = { project with modules := accepted.modules } := by
  obtain ⟨accepted, failure?, hsearch, hresult⟩ := expandModules_searches finder hroot hboundary
  rw [hresult] at h
  cases failure? with
  | some error => cases h
  | none =>
    cases h
    exact ⟨accepted, hsearch, rfl⟩

/-- An expansion fails with the failure of a search. -/
theorem exists_searches_of_error {project : Project} {error : ProjectError}
    (h : finder.expandModules tree project = .error error)
    (hroot : tree.canonical project.root = .ok location)
    (hboundary : tree.canonical project.boundary = .ok boundary) :
    ∃ accepted, SearchesFrom finder tree boundary project.root rootModule ⟨[location], []⟩ accepted
      (some error) := by
  obtain ⟨accepted, failure?, hsearch, hresult⟩ := expandModules_searches finder hroot hboundary
  rw [hresult] at h
  cases failure? with
  | none => cases h
  | some error =>
    cases h
    exact ⟨accepted, hsearch⟩

/-- The modules of a project that an expansion succeeds with are directories of their own. -/
theorem distinguishes_of_expandModules {project expanded : Project}
    (h : finder.expandModules tree project = .ok expanded) :
    ∃ location boundary locations, tree.canonical project.root = .ok location ∧
      tree.canonical project.boundary = .ok boundary ∧
      expanded = { project with modules := expanded.modules } ∧
      Distinguishes tree boundary location expanded.modules locations := by
  cases hroot : tree.canonical project.root with
  | error failure =>
    simp only [expandModules, ProjectFinder.location, hroot] at h
    cases h
  | ok location =>
  cases hboundary : tree.canonical project.boundary with
  | error failure =>
    simp only [expandModules, ProjectFinder.location, hroot, hboundary] at h
    cases h
  | ok boundary =>
  obtain ⟨accepted, hsearch, rfl⟩ := exists_searches_of_ok h hroot hboundary
  obtain ⟨locations, hdistinguishes, _⟩ := hsearch.accepts.distinguishes
  exact ⟨location, boundary, locations, rfl, rfl, rfl, hdistinguishes⟩

/-- The modules of a project that an expansion succeeds with are reached through listed paths. -/
theorem reached_of_expandModules {project expanded : Project}
    (h : finder.expandModules tree project = .ok expanded) :
    ∃ boundary, tree.canonical project.boundary = .ok boundary ∧ ∀ module ∈ expanded.modules,
      Reached finder tree boundary project.root module.root module.relative := by
  obtain ⟨location, boundary, _, hroot, hboundary, _, _⟩ := distinguishes_of_expandModules h
  obtain ⟨accepted, hsearch, rfl⟩ := exists_searches_of_ok h hroot hboundary
  exact ⟨boundary, hboundary, hsearch.accepts.reached⟩

/-- An expansion ends, and what it finds is exact. Where the root and the boundary of a project can
be resolved, a search without any bound ends with what is accepted and perhaps a failure, and the
expansion has its result. The accepted modules are directories at different locations, other than
the root and inside the boundary, under different module paths, and each is reached from the root
through listed paths. The search fails if and only if the modules of the root or of an accepted
module cannot be listed or one of them lists a path that names no directory, and its failure is one
of these; otherwise every path listed by the root or by a module is blank or names a directory that
is the root, one of the modules, or outside of the boundary. -/
theorem expandModules_exact (finder : ProjectFinder) (tree : FileTree) (project : Project) :
    (∃ path ∈ [project.root, project.boundary], ∃ failure, tree.canonical path = .error failure ∧
      finder.expandModules tree project = .error (.unresolved path failure)) ∨
    ∃ location boundary accepted failure? locations,
      tree.canonical project.root = .ok location ∧
      tree.canonical project.boundary = .ok boundary ∧
      SearchesFrom finder tree boundary project.root rootModule ⟨[location], []⟩ accepted failure? ∧
      finder.expandModules tree project =
        (accepted.outcome failure?).map (fun found => { project with modules := found.modules }) ∧
      Distinguishes tree boundary location accepted.modules locations ∧
      (∀ module ∈ accepted.modules,
        Reached finder tree boundary project.root module.root module.relative) ∧
      (failure? ≠ none ↔ ∃ directory ∈ project.root :: accepted.modules.map (·.root), ∃ error,
        Stops finder tree directory error) ∧
      (∀ error, failure? = some error → ∃ directory ∈ project.root :: accepted.modules.map (·.root),
        Stops finder tree directory error) ∧
      (failure? = none → ∀ directory ∈ project.root :: accepted.modules.map (·.root),
        Closed finder tree boundary (location :: locations) directory) := by
  cases hroot : tree.canonical project.root with
  | error failure =>
    refine Or.inl ⟨project.root, by simp, failure, hroot, ?_⟩
    simp only [expandModules, ProjectFinder.location, hroot]
    rfl
  | ok location =>
  cases hboundary : tree.canonical project.boundary with
  | error failure =>
    refine Or.inl ⟨project.boundary, by simp, failure, hboundary, ?_⟩
    simp only [expandModules, ProjectFinder.location, hroot, hboundary]
    rfl
  | ok boundary =>
  right
  obtain ⟨accepted, failure?, hsearch, hresult⟩ :=
    expandModules_searches finder hroot hboundary
  obtain ⟨locations, hdistinguishes, hvisited⟩ := hsearch.accepts.distinguishes
  have hstopped : ∀ error, failure? = some error →
      ∃ directory ∈ project.root :: accepted.modules.map (·.root),
        Stops finder tree directory error := by
    rintro error rfl
    exact hsearch.stopped
  have hclosed : failure? = none → ∀ directory ∈ project.root :: accepted.modules.map (·.root),
      Closed finder tree boundary accepted.visited directory := by
    rintro rfl
    exact hsearch.closed
  refine ⟨location, boundary, accepted, failure?, locations, rfl, rfl, hsearch, hresult,
    hdistinguishes, hsearch.accepts.reached, ⟨?_, ?_⟩, hstopped, ?_⟩
  · intro hfails
    obtain ⟨error, herror⟩ := Option.ne_none_iff_exists'.mp hfails
    obtain ⟨directory, hdirectory, hstops⟩ := hstopped error herror
    exact ⟨directory, hdirectory, error, hstops⟩
  · rintro ⟨directory, hdirectory, error, hstops⟩ hnone
    exact (hclosed hnone directory hdirectory).not_stops hstops
  · intro hnone directory hdirectory
    obtain ⟨paths, hlister, hsettled⟩ := hclosed hnone directory hdirectory
    refine ⟨paths, hlister, fun listed hlisted => ?_⟩
    simpa only [Settled, hvisited] using hsettled listed hlisted

end CorpusFacts.ProjectFinder
