import CorpusFacts.Proofs.Project.Confinement
import CorpusFacts.Proofs.Project.Relisting

/-!
# Projects in a later tree

An analysis of a project looks for its build, its modules and its files inside the directory of the
project. In a later tree that keeps this directory it has the same result, whatever else was written
since, as long as markers and descriptors have plain names and no listed directory is there now that
was missing.
-/

namespace CorpusFacts

open FileTree (Keeps LeadsInto)

variable {tree later : FileTree} {inside location : List String} {path directory found : Path}
  {names : List String}

/-- Steps that agree on the members of a list have the same results. -/
theorem mapM_congr {ε α β : Type} {f g : α → Except ε β} {as : List α} (h : ∀ a ∈ as, f a = g a) :
    as.mapM f = as.mapM g := by
  induction as with
  | nil => rfl
  | cons a as ih =>
    obtain ⟨ha, hrest⟩ := List.forall_mem_cons.mp h
    rw [List.mapM_cons, List.mapM_cons, ha, ih hrest]

/-- Steps that agree on the members of a list lead to the same result. -/
theorem foldlM_congr {ε α β : Type} {f g : β → α → Except ε β} {as : List α}
    (h : ∀ a ∈ as, ∀ b, f b a = g b a) (b : β) : as.foldlM f b = as.foldlM g b := by
  induction as generalizing b with
  | nil => rfl
  | cons a as ih =>
    obtain ⟨ha, hrest⟩ := List.forall_mem_cons.mp h
    simp only [List.foldlM_cons, ha, ih hrest]

/-- Steps that fail do so at a member of the list. -/
theorem exists_of_mapM_error {ε α β : Type} {f : α → Except ε β} {as : List α} {error : ε}
    (h : as.mapM f = .error error) : ∃ a ∈ as, f a = .error error := by
  induction as with
  | nil => cases h
  | cons a as ih =>
    rw [List.mapM_cons] at h
    cases ha : f a with
    | error other =>
      rw [ha] at h
      cases h
      exact ⟨a, List.mem_cons_self .., ha⟩
    | ok b =>
      rw [ha] at h
      cases hrest : as.mapM f with
      | error other =>
        rw [hrest] at h
        cases h
        obtain ⟨later, hlater, hfails⟩ := ih hrest
        exact ⟨later, List.mem_cons_of_mem _ hlater, hfails⟩
      | ok bs =>
        rw [hrest] at h
        cases h

/-- Steps along a list that fail do so at a member of the list. -/
theorem exists_of_foldlM_error {ε α β : Type} {f : β → α → Except ε β} {as : List α} {b : β}
    {error : ε} (h : as.foldlM f b = .error error) : ∃ a ∈ as, ∃ b, f b a = .error error := by
  induction as generalizing b with
  | nil => cases h
  | cons a as ih =>
    rw [List.foldlM_cons] at h
    cases ha : f b a with
    | error other =>
      rw [ha] at h
      cases h
      exact ⟨a, List.mem_cons_self .., b, ha⟩
    | ok next =>
      rw [ha] at h
      obtain ⟨later, hlater, hfails⟩ := ih h
      exact ⟨later, List.mem_cons_of_mem _ hlater, hfails⟩

/-- The names of the files of a scope are plain. -/
def UnitScope.IsPlain : UnitScope → Prop
  | .sources _ => True
  | .descriptors names _ _ => ∀ name ∈ names, IsPlainName name

/-- Whether the files of a scope have plain names is decided by a look at each name. -/
instance : (scope : UnitScope) → Decidable scope.IsPlain
  | .sources _ => inferInstanceAs (Decidable True)
  | .descriptors names _ _ => inferInstanceAs (Decidable (∀ name ∈ names, IsPlainName name))

/-- Whether some file with one of some plain names lies in a directory is as before. -/
theorem any_isFile_eq (h : tree.Keeps later inside) (hpath : tree.LeadsInto inside path)
    (hnames : ∀ name ∈ names, IsPlainName name) :
    (names.any fun name => later.isFile (path.join name)) =
      names.any fun name => tree.isFile (path.join name) :=
  any_isFile_congr fun name hname => (h.showsSame (hpath.join (hnames name hname))).isFile_eq

/-- The visible directories in a directory that is kept are the same. -/
theorem sourceDirectories_eq (h : tree.Keeps later inside) (hpath : tree.LeadsInto inside path) :
    sourceDirectories later path = sourceDirectories tree path := by
  rw [sourceDirectories, sourceDirectories, ProjectFinder.visibleDirectories,
    ProjectFinder.visibleDirectories, (h.showsSame hpath).entries_eq]

/-- A build script lies in a directory as before. -/
theorem hasBuildScript_eq (h : tree.Keeps later inside) (hpath : tree.LeadsInto inside path) :
    hasBuildScript later path = hasBuildScript tree path :=
  any_isFile_eq h hpath (by decide)

/-- The build below a directory is found as before. -/
theorem buildRootBelow?_eq (h : tree.Keeps later inside) (hsound : tree.root.IsSound)
    (hpath : tree.LeadsInto inside path) (levels : Nat) :
    buildRootBelow? later levels path = buildRootBelow? tree levels path := by
  induction levels generalizing path with
  | zero => rfl
  | succ levels ih =>
    rw [buildRootBelow?, buildRootBelow?, sourceDirectories_eq h hpath]
    split
    · rename_i only honly
      obtain ⟨name, hname, rfl⟩ := exists_visible_of_sourceDirectories honly
      have hinner :=
        hpath.join (ProjectFinder.isEntryName_of_visible hsound hname).isPlainName
      rw [hasBuildScript_eq h hinner, ih hinner]
    · rfl

/-- The build of a directory is found as before. -/
theorem buildRoot?_eq (h : tree.Keeps later inside) (hsound : tree.root.IsSound)
    (hpath : tree.LeadsInto inside path) : buildRoot? later path = buildRoot? tree path := by
  rw [buildRoot?, buildRoot?, hasBuildScript_eq h hpath, buildRootBelow?_eq h hsound hpath]

namespace Entry

mutual

/-- A walk through an entry meets the same with another test that agrees on all paths into a
directory. -/
theorem walk_congr {enters other : Met → Bool}
    (h : ∀ met : Met, tree.LeadsInto inside met.path → enters met = other met) :
    (entry : Entry) → entry.IsSound → (path : Path) → (names : List String) →
      tree.LeadsInto inside path → entry.walk enters path names = entry.walk other path names
  | .file _, _, _, _, _ => by simp [walk]
  | .link _, _, _, _, _ => by simp [walk]
  | .directory entries, hsound, path, names, hpath => by
    rw [walk, walk]
    cases hsound with
    | directory _ hnames hentries =>
      exact walkEntries_congr h entries
        (fun name entry hmem => ⟨hnames name entry hmem, hentries name entry hmem⟩) path names hpath

/-- A walk through some entries meets the same with another test that agrees on all paths into a
directory. -/
theorem walkEntries_congr {enters other : Met → Bool}
    (h : ∀ met : Met, tree.LeadsInto inside met.path → enters met = other met) :
    (entries : List (String × Entry)) →
      (∀ name entry, (name, entry) ∈ entries → IsEntryName name ∧ entry.IsSound) →
      (path : Path) → (names : List String) → tree.LeadsInto inside path →
      walkEntries enters path names entries = walkEntries other path names entries
  | [], _, _, _, _ => by rw [walkEntries, walkEntries]
  | (name, entry) :: rest, hentries, path, names, hpath => by
    obtain ⟨hname, hentry⟩ := hentries name entry (List.mem_cons_self ..)
    have hinner := hpath.join hname.isPlainName
    rw [walkEntries, walkEntries, walkEntries_congr h rest
      (fun name entry hmem => hentries name entry (List.mem_cons_of_mem _ hmem)) path names hpath]
    simp only [h ⟨path.join name, names ++ [name], entry⟩ hinner,
      walk_congr h entry hentry (path.join name) (names ++ [name]) hinner]

end

end Entry

namespace ProjectFinder

variable {finder : ProjectFinder} {project : Project} {scope : UnitScope}

/-- A walk goes into a directory as before. -/
theorem enters_eq (h : tree.Keeps later inside)
    (hmarkers : ∀ marker ∈ finder.markers, IsPlainName marker) (module : String) {met : Met}
    (hmet : tree.LeadsInto inside met.path) :
    finder.enters later project module met = finder.enters tree project module met := by
  rw [enters, enters, hasMarker, hasMarker, any_isFile_eq h hmet hmarkers]

/-- The sources of a module are the same. -/
theorem moduleSources_eq (h : tree.Keeps later inside) (hsound : tree.root.IsSound)
    (hmarkers : ∀ marker ∈ finder.markers, IsPlainName marker)
    (hpath : tree.canonical path = .ok location) (hinside : inside <+: location)
    (extensions : List String) (module : String) :
    finder.moduleSources later project extensions module path =
      finder.moduleSources tree project extensions module path := by
  have hinto : tree.LeadsInto inside path :=
    .of_canonical (fun spot _ => h.plain spot) hpath hinside
  obtain ⟨start, spot, hstart, hspot, _⟩ := FileTree.exists_walkStart hpath
  have hwalk : later.walk (finder.enters later project module) path =
      tree.walk (finder.enters tree project module) path := by
    rw [FileTree.walk, FileTree.walk, h.walkStart_eq hinto, hstart]
    simp only [Except.map, Entry.walk_congr (fun _ hmet => enters_eq h hmarkers module hmet) start
      (hsound.at? hspot).1 path [] hinto]
  rw [moduleSources, moduleSources, hwalk]

/-- The files of a module with plain names are the same. -/
theorem moduleDescriptors_eq (h : tree.Keeps later inside) (hpath : tree.LeadsInto inside path)
    (hnames : ∀ name ∈ names, IsPlainName name) (module : String) :
    moduleDescriptors later names module path = moduleDescriptors tree names module path := by
  rw [moduleDescriptors, moduleDescriptors,
    List.filter_congr fun name hname => (h.showsSame (hpath.join (hnames name hname))).isFile_eq]

/-- Descriptors are looked for in the root of a project or in its modules as well. -/
theorem descriptorRoots_subset (project : Project) (inModules : Bool) :
    (if inModules then project.moduleRoots else [(rootModule, project.root)]) ⊆
      project.moduleRoots := by
  split
  · exact List.Subset.refl _
  · exact List.cons_subset.mpr ⟨List.mem_cons_self .., List.nil_subset _⟩

/-- The files of a project in a plain scope are the same. -/
theorem units_eq (h : tree.Keeps later inside) (hsound : tree.root.IsSound)
    (hmarkers : ∀ marker ∈ finder.markers, IsPlainName marker) (hscope : scope.IsPlain)
    (hroots : ∀ root ∈ project.moduleRoots,
      ∃ place, tree.canonical root.2 = .ok place ∧ inside <+: place) :
    finder.units later project scope = finder.units tree project scope := by
  cases scope with
  | sources extensions =>
    have hmodules : (project.moduleRoots.mapM fun root =>
        finder.moduleSources later project extensions root.1 root.2) =
          project.moduleRoots.mapM fun root =>
            finder.moduleSources tree project extensions root.1 root.2 := by
      refine mapM_congr fun root hroot => ?_
      obtain ⟨place, hplace, hinside⟩ := hroots root hroot
      exact moduleSources_eq h hsound hmarkers hplace hinside extensions root.1
    rw [units, units, sources, sources, hmodules]
  | descriptors names inModules required =>
    have hmodules : ∀ roots ⊆ project.moduleRoots,
        (roots.flatMap fun root => moduleDescriptors later names root.1 root.2) =
          roots.flatMap fun root => moduleDescriptors tree names root.1 root.2 := by
      intro roots hsubset
      refine List.flatMap_congr fun root hroot => ?_
      obtain ⟨place, hplace, hinside⟩ := hroots root (hsubset hroot)
      exact moduleDescriptors_eq h
        (.of_canonical (fun spot _ => h.plain spot) hplace hinside) hscope root.1
    rw [units, units, descriptors, descriptors]
    simp only [hmodules _ (descriptorRoots_subset project inModules)]

/-- The files of a project in a plain scope lie in the directory that its root and its modules all
lie in. -/
theorem leadsInto_of_mem_units {units : List AnalysisUnit}
    (hplain : ∀ location, tree.kindAt location ≠ some .link) (hsound : tree.root.IsSound)
    (hscope : scope.IsPlain)
    (hroots : ∀ root ∈ project.moduleRoots,
      ∃ place, tree.canonical root.2 = .ok place ∧ inside <+: place)
    (hunits : finder.units tree project scope = .ok units) :
    ∀ unit ∈ units, tree.LeadsInto inside unit.path := by
  intro unit hunit
  cases scope with
  | sources extensions =>
    obtain ⟨found, hfound, hlocated⟩ := exists_sources_below hsound hroots finder extensions
    obtain rfl := Except.ok.inj (hfound.symm.trans hunits)
    obtain ⟨location, _, hlocation, hinside, _⟩ := hlocated unit hunit
    exact .of_canonical (fun spot _ => hplain spot) hlocation hinside
  | descriptors names inModules required =>
    have hfound : ∃ root ∈ project.moduleRoots,
        unit ∈ moduleDescriptors tree names root.1 root.2 := by
      have hsubset := descriptorRoots_subset project inModules
      simp only [ProjectFinder.units, descriptors] at hunits
      generalize (if inModules then project.moduleRoots else [(rootModule, project.root)]) = roots
        at hunits hsubset
      split at hunits
      · cases hunits
      · obtain rfl := Except.ok.inj hunits
        obtain ⟨root, hroot, hmem⟩ := List.mem_flatMap.mp hunit
        exact ⟨root, hsubset hroot, hmem⟩
    obtain ⟨root, hroot, hmem⟩ := hfound
    obtain ⟨place, hplace, hinside⟩ := hroots root hroot
    obtain ⟨name, hname, rfl⟩ := List.mem_map.mp hmem
    exact (LeadsInto.of_canonical (fun spot _ => hplain spot) hplace hinside).join
      (hscope name (List.mem_filter.mp hname).1)

end ProjectFinder

/-- A reason for a failure that lies in the files of a project. -/
inductive ProjectError.LiesInFiles : ProjectError → Prop
  /-- There are none of the files that are required. -/
  | missingDescriptor (root : Path) (names : List String) :
    LiesInFiles (.missingDescriptor root names)
  /-- A file cannot be parsed. -/
  | unparsed (error : ParseError) : LiesInFiles (.unparsed error)
  /-- A directory cannot be walked. -/
  | walk (path : Path) (failure : FileFailure) : LiesInFiles (.walk path failure)
  /-- What is made of the files comes to a sudden end. -/
  | crashed (crash : Crash) : LiesInFiles (.crashed crash)

namespace ProjectFinder

variable {finder : ProjectFinder} {project : Project} {error : ProjectError}

/-- Files are not found for reasons that lie in the files. -/
theorem liesInFiles_of_units {scope : UnitScope}
    (hfails : finder.units tree project scope = .error error) : error.LiesInFiles := by
  cases scope with
  | sources extensions =>
    rw [units, sources] at hfails
    cases hmodules : project.moduleRoots.mapM fun root =>
        finder.moduleSources tree project extensions root.1 root.2 with
    | ok units =>
      rw [hmodules] at hfails
      cases hfails
    | error error =>
      rw [hmodules] at hfails
      cases hfails
      obtain ⟨root, _, hroot⟩ := exists_of_mapM_error hmodules
      rw [moduleSources] at hroot
      cases hwalk : tree.walk (finder.enters tree project root.1) root.2 <;>
        rw [hwalk] at hroot <;> cases hroot
      exact .walk _ _
  | descriptors names inModules required =>
    simp only [units, descriptors] at hfails
    generalize (if inModules then project.moduleRoots else [(rootModule, project.root)]) = roots
      at hfails
    split at hfails <;> cases hfails
    exact .missingDescriptor _ _

/-- A search fails for a missing module, or because a settings script cannot be parsed. -/
theorem Searches.failure_cases {boundary : List String} {pending : List Listing}
    {known final : Expansion}
    (h : Searches finder tree boundary pending known final (some error)) :
    error.LiesInFiles ∨ ∃ path listed, error = .missingModule path listed := by
  generalize hfailure : some error = failure? at h
  induction h with
  | ends => cases hfailure
  | blank _ _ ih => exact ih hfailure
  | missing =>
    cases hfailure
    exact Or.inr ⟨_, _, rfl⟩
  | passes _ _ _ _ _ ih => exact ih hfailure
  | unlisted =>
    cases hfailure
    exact Or.inl (.unparsed _)
  | enters _ _ _ _ _ _ _ ih => exact ih hfailure

/-- The modules of a project are not found for a missing one, or because a settings script cannot be
parsed. -/
theorem failure_cases_of_expandModules {boundary : List String}
    (hfails : finder.expandModules tree project = .error error)
    (hroot : tree.canonical project.root = .ok location)
    (hboundary : tree.canonical project.boundary = .ok boundary) :
    error.LiesInFiles ∨ ∃ path listed, error = .missingModule path listed := by
  obtain ⟨accepted, hsearch⟩ := exists_searches_of_error hfails hroot hboundary
  cases hsearch with
  | unlisted => exact Or.inl (.unparsed _)
  | lists _ hsearch => exact hsearch.failure_cases

end ProjectFinder

namespace Executor

variable {π ρ : Type} {executor : Executor π ρ} {name : String}

/-- An analysis fails where preparing the project does, or for a reason that lies in the files. -/
theorem prepare_of_analyze_error {project : Project} {error : ProjectError}
    (h : executor.analyze tree project = .error error) :
    error.LiesInFiles ∨ executor.prepare tree project = .error error := by
  rw [analyze] at h
  cases hprepared : executor.prepare tree project with
  | error other =>
    rw [hprepared] at h
    cases h
    exact Or.inr rfl
  | ok prepared =>
    left
    rw [hprepared] at h
    simp only [bind, Except.bind] at h
    split at h
    · rename_i other hunits
      cases h
      exact ProjectFinder.liesInFiles_of_units hunits
    split at h
    · rename_i other hreading
      cases h
      obtain ⟨unit, _, reading, hunit⟩ := exists_of_foldlM_error hreading
      simp only [readUnit] at hunit
      split at hunit
      · cases hunit
      · split at hunit <;> cases hunit
        exact .unparsed _
    split at h
    · rename_i other hrecords
      cases h
      cases hcrash : executor.extraction.aggregate prepared _ <;> rw [hcrash] at hrecords <;>
        cases hrecords
      exact .crashed _
    · cases h

/-- The build of a project is found as before. -/
theorem resolveRoot_eq (h : tree.Keeps later inside) (hsound : tree.root.IsSound)
    (hresolver : executor.resolver = none ∨ executor.resolver = some buildRoot?)
    {project : Project} (hroot : tree.LeadsInto inside project.root) :
    executor.resolveRoot later project = executor.resolveRoot tree project := by
  rw [resolveRoot, resolveRoot]
  rcases hresolver with hnone | hsome
  · rw [hnone]
    rfl
  · simp only [hsome, Option.bind_some, buildRoot?_eq h hsound hroot]

/-- What makes an analysis of a project of a batch depend on nothing but the directory of the
project, in a tree and a later one. -/
structure ReadsInside (executor : Executor π ρ) (tree later : FileTree) (inside : List String) :
    Prop where
  /-- The tree is sound. -/
  sound : tree.root.IsSound
  /-- The directory of the project is kept. -/
  keeps : tree.Keeps later inside
  /-- Builds are looked for in nested directories, if at all. -/
  resolver : executor.resolver = none ∨ executor.resolver = some buildRoot?
  /-- Modules are found in settings scripts. -/
  lister : executor.finder.lister = Gradle.listedModules
  /-- The markers have plain names. -/
  markers : ∀ marker ∈ executor.finder.markers, IsPlainName marker
  /-- The descriptors have plain names. -/
  scope : executor.extraction.scope.IsPlain

/-- A project is prepared as before, unless a directory is there now that was missing. -/
theorem ReadsInside.prepare_eq (h : executor.ReadsInside tree later inside)
    (hdirectory : tree.canonical directory = .ok inside)
    (hmissing : ∀ path listed, executor.prepare tree (.ofRoot name directory) =
      .error (.missingModule path listed) → later.isDirectory path = false) :
    executor.prepare later (.ofRoot name directory) =
      executor.prepare tree (.ofRoot name directory) := by
  have hinto : ∀ {path : Path} {location : List String}, tree.canonical path = .ok location →
      inside <+: location → tree.LeadsInto inside path := fun hcanonical hinside =>
    .of_canonical (fun spot _ => h.keeps.plain spot) hcanonical hinside
  obtain ⟨root, place, hresolved, hroot, hinside⟩ :=
    resolveRoot_below name h.sound h.resolver hdirectory
  have hsame : executor.resolveRoot later (.ofRoot name directory) =
      executor.resolveRoot tree (.ofRoot name directory) :=
    resolveRoot_eq h.keeps h.sound h.resolver (hinto hdirectory List.prefix_rfl)
  simp only [prepare, hresolved] at hmissing
  rw [prepare, prepare, hsame, hresolved]
  simp only
  split
  · rename_i hneeds
    rw [if_pos hneeds] at hmissing
    refine ProjectFinder.expandModules_eq h.keeps hmissing ?_ (hinto hroot hinside) hroot
      (hinto hdirectory List.prefix_rfl) hdirectory
    intro path hpath
    rw [h.lister]
    exact Gradle.listedModules_eq_of_keeps h.keeps hpath
  · rfl

/-- A project is analyzed as before, unless a directory is there now that was missing. -/
theorem ReadsInside.analyze_eq (h : executor.ReadsInside tree later inside)
    (hdirectory : tree.canonical directory = .ok inside)
    (hmissing : ∀ path listed, executor.analyze tree (.ofRoot name directory) =
      .error (.missingModule path listed) → later.isDirectory path = false) :
    executor.analyze later (.ofRoot name directory) =
      executor.analyze tree (.ofRoot name directory) := by
  have hprepare : executor.prepare later (.ofRoot name directory) =
      executor.prepare tree (.ofRoot name directory) :=
    h.prepare_eq hdirectory fun path listed hfails =>
      hmissing path listed (by rw [analyze, hfails]; rfl)
  rw [analyze, analyze, hprepare]
  cases hprepared : executor.prepare tree (.ofRoot name directory) with
  | error error => simp only [bind, Except.bind]
  | ok prepared =>
    have hroots := moduleRoots_below h.sound h.resolver hdirectory hprepared
    simp only [bind, Except.bind, ProjectFinder.units_eq h.keeps h.sound h.markers h.scope hroots]
    cases hunits : executor.finder.units tree prepared executor.extraction.scope with
    | error error => rfl
    | ok units =>
      have hinto := ProjectFinder.leadsInto_of_mem_units h.keeps.plain h.sound h.scope hroots hunits
      have hreading : units.foldlM (executor.readUnit later) ⟨.empty, []⟩ =
          units.foldlM (executor.readUnit tree) ⟨.empty, []⟩ := by
        refine foldlM_congr (fun unit hunit reading => ?_) _
        have hsame := h.keeps.showsSame (hinto unit hunit)
        rw [readUnit, readUnit, SourceUnit.ofFile_eq hsame.read_eq]
      simp only [hreading]

/-- A project is not analyzed for a reason that lies in the files, or because it lists a module that
is missing. -/
theorem analyze_error_cases {error : ProjectError} (hsound : tree.root.IsSound)
    (hresolver : executor.resolver = none ∨ executor.resolver = some buildRoot?)
    (hdirectory : tree.canonical directory = .ok inside)
    (hfails : executor.analyze tree (.ofRoot name directory) = .error error) :
    error.LiesInFiles ∨ ∃ path listed, error = .missingModule path listed ∧
      tree.isDirectory path = false ∧ executor.extraction.needsModules = true ∧
      ∃ listing found, ProjectFinder.IsListed executor.finder tree inside
          (executor.resolveRoot tree (.ofRoot name directory)).root listing ∧
        listing.module? = some found ∧ found.root = path := by
  rcases prepare_of_analyze_error hfails with hfiles | hprepare
  · exact Or.inl hfiles
  obtain ⟨root, place, hresolved, hroot, _⟩ := resolveRoot_below name hsound hresolver hdirectory
  simp only [prepare] at hprepare
  rw [hresolved] at hprepare ⊢
  split at hprepare
  · rename_i hneeds
    refine (ProjectFinder.failure_cases_of_expandModules hprepare hroot hdirectory).imp_right ?_
    rintro ⟨path, listed, rfl⟩
    obtain ⟨listing, found, hlisting, hmodule, hpath, hmissing⟩ :=
      ProjectFinder.exists_listing_of_missing hprepare hroot hdirectory
    exact ⟨path, listed, rfl, hmissing, hneeds, listing, found, hlisting, hmodule, hpath⟩
  · cases hprepare

end Executor

end CorpusFacts
