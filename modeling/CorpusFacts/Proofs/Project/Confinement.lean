import CorpusFacts.Project.ModuleList
import CorpusFacts.Proofs.Project.Sources
import CorpusFacts.Run.Executor

/-!
# Confinement of projects

The projects of a corpus run as a batch are different directories of the corpus. Looking for the
build of a project goes down from its directory, modules lie inside of it, and walks follow no link,
so a project reads sources from its own directory only.
-/

namespace CorpusFacts

variable {tree : FileTree} {directory found corpus : Path} {location : List String} {name : String}

/-- A visible directory in a directory lies there under its name. -/
theorem ProjectFinder.canonical_of_visible (hsound : tree.root.IsSound)
    (h : name ∈ visibleDirectories tree directory) :
    ∃ location, tree.canonical directory = .ok location ∧
      tree.canonical (directory.join name) = .ok (location ++ [name]) := by
  rw [visibleDirectories] at h
  split at h
  · cases h
  · rename_i entries hentries
    obtain ⟨location, hlocation, hat⟩ := FileTree.entries_eq_ok_iff.mp hentries
    obtain ⟨⟨other, entry⟩, hentry, rfl⟩ := List.mem_map.mp h
    obtain ⟨hmem, hvisible⟩ := List.mem_filter.mp hentry
    obtain ⟨hdirectory, _⟩ := Bool.and_eq_true_iff.mp hvisible
    have hplain : entry.isLink = false := by
      cases entry with
      | directory entries => rfl
      | file content => rfl
      | link target => cases hdirectory
    cases (hsound.at? hat).1 with
    | directory hsorted hnames _ =>
      have hother : tree.root.at? (location ++ [other]) = some entry := by
        simp [Entry.at?_append, hat, Entry.at?, Entry.find?_of_mem hsorted hmem]
      exact ⟨location, hlocation,
        FileTree.canonical_join hlocation (hnames other entry hmem) hother hplain⟩

/-- A visible directory has the name of an entry. -/
theorem ProjectFinder.isEntryName_of_visible (hsound : tree.root.IsSound)
    (h : name ∈ visibleDirectories tree directory) : IsEntryName name := by
  obtain ⟨location, _, hplace⟩ := canonical_of_visible hsound h
  obtain ⟨entry, hentry, _⟩ := FileTree.exists_plain_of_canonical hplace
  exact (hsound.at? hentry).2 name (by simp)

/-- The only directory in a directory that may hold sources is a visible one. -/
theorem exists_visible_of_sourceDirectories {only : Path}
    (h : sourceDirectories tree directory = [only]) :
    ∃ name ∈ ProjectFinder.visibleDirectories tree directory, only = directory.join name := by
  have hmem : only ∈ sourceDirectories tree directory := by simp [h]
  obtain ⟨name, hname, rfl⟩ := List.mem_map.mp hmem
  exact ⟨name, (List.mem_filter.mp hname).1, rfl⟩

/-- A build that is looked for in a directory lies inside of it. -/
theorem canonical_of_buildRootBelow? (hsound : tree.root.IsSound) {levels : Nat}
    (h : buildRootBelow? tree levels directory = some found)
    (hdirectory : tree.canonical directory = .ok location) :
    ∃ place, tree.canonical found = .ok place ∧ location <+: place := by
  induction levels generalizing directory location with
  | zero => cases h
  | succ levels ih =>
    rw [buildRootBelow?] at h
    split at h
    · rename_i only honly
      obtain ⟨name, hname, rfl⟩ := exists_visible_of_sourceDirectories honly
      obtain ⟨around, haround, hinner⟩ := ProjectFinder.canonical_of_visible hsound hname
      obtain rfl : location = around := by simpa [hdirectory] using haround
      split at h
      · cases h
        exact ⟨_, hinner, List.prefix_append _ _⟩
      · obtain ⟨place, hplace, hbelow⟩ := ih h hinner
        exact ⟨place, hplace, (List.prefix_append _ _).trans hbelow⟩
    · cases h

namespace Executor

variable {π ρ : Type} {executor : Executor π ρ} {project prepared : Project}

/-- The projects of a batch are the visible directories of the corpus that are accepted, each with
its own directory for a boundary. -/
theorem of_mem_batch (h : project ∈ executor.projects tree corpus .batch) :
    ∃ name ∈ ProjectFinder.visibleDirectories tree corpus,
      project = .ofRoot name (corpus.join name) := by
  rw [projects, ProjectFinder.discover, if_neg (by simp [ProjectFinder.isSingle])] at h
  obtain ⟨name, hname, hproject⟩ := List.mem_filterMap.mp h
  refine ⟨name, hname, ?_⟩
  simp only at hproject
  split at hproject
  · exact (Option.some.inj hproject).symm
  · cases hproject

/-- Looking for the build of a project leaves it inside its directory, and without modules. -/
theorem resolveRoot_below (name : String) (hsound : tree.root.IsSound)
    (hresolver : executor.resolver = none ∨ executor.resolver = some buildRoot?)
    (hlocation : tree.canonical directory = .ok location) :
    ∃ root place, executor.resolveRoot tree (.ofRoot name directory) =
        { Project.ofRoot name root with boundary := directory } ∧
      tree.canonical root = .ok place ∧ location <+: place := by
  rw [resolveRoot]
  split
  · exact ⟨directory, location, rfl, hlocation, List.prefix_rfl⟩
  · rename_i root hroot
    obtain hnone | hsome := hresolver
    · simp [hnone] at hroot
    · have hbuild : buildRoot? tree directory = some root := by
        simpa [hsome, Project.ofRoot] using hroot
      rw [buildRoot?] at hbuild
      split at hbuild
      · cases hbuild
      · obtain ⟨place, hplace, hbelow⟩ := canonical_of_buildRootBelow? hsound hbuild hlocation
        exact ⟨root, place, rfl, hplace, hbelow⟩

/-- The root and the modules of a prepared project lie inside the directory of the project. -/
theorem moduleRoots_below (hsound : tree.root.IsSound)
    (hresolver : executor.resolver = none ∨ executor.resolver = some buildRoot?)
    (hlocation : tree.canonical directory = .ok location)
    (h : executor.prepare tree (.ofRoot name directory) = .ok prepared) :
    ∀ root ∈ prepared.moduleRoots, ∃ place, tree.canonical root.2 = .ok place ∧
      location <+: place := by
  obtain ⟨root, place, hresolved, hroot, hbelow⟩ :=
    resolveRoot_below name hsound hresolver hlocation
  simp only [prepare, hresolved] at h
  split at h
  · obtain ⟨_, boundary, locations, _, hboundary, hshape, hdistinguishes⟩ :=
      ProjectFinder.distinguishes_of_expandModules h
    obtain rfl : location = boundary := by simpa [hlocation] using hboundary
    have hpreparedRoot : prepared.root = root := by rw [hshape]; rfl
    intro moduleRoot hmem
    rcases List.mem_cons.mp hmem with rfl | hmem
    · exact ⟨place, by rwa [hpreparedRoot], hbelow⟩
    · obtain ⟨module, hmodule, rfl⟩ := List.mem_map.mp hmem
      obtain ⟨modulePlace, _, hcanonical, hinside⟩ := hdistinguishes.located_of_mem hmodule
      exact ⟨modulePlace, hcanonical, hinside⟩
  · obtain rfl := Except.ok.inj h
    intro moduleRoot hmem
    obtain rfl : moduleRoot = (rootModule, root) := by
      simpa [Project.moduleRoots, Project.ofRoot] using hmem
    exact ⟨place, hroot, hbelow⟩

/-- A prepared project of a batch has sources, and they are files below the name of the project in
the corpus. -/
theorem exists_sources_of_batch (hsound : tree.root.IsSound)
    (hresolver : executor.resolver = none ∨ executor.resolver = some buildRoot?)
    (h : project ∈ executor.projects tree corpus .batch)
    (hprepared : executor.prepare tree project = .ok prepared) (extensions : List String) :
    ∃ around units, tree.canonical corpus = .ok around ∧
      tree.canonical project.root = .ok (around ++ [project.name]) ∧
      executor.finder.units tree prepared (.sources extensions) = .ok units ∧
      ∀ unit ∈ units, ∃ location content, tree.canonical unit.path = .ok location ∧
        around ++ [project.name] <+: location ∧ tree.root.at? location = some (.file content) := by
  obtain ⟨name, hname, rfl⟩ := of_mem_batch h
  obtain ⟨around, haround, hplace⟩ := ProjectFinder.canonical_of_visible hsound hname
  obtain ⟨units, hunits, hbelow⟩ := ProjectFinder.exists_sources_below hsound
    (moduleRoots_below hsound hresolver hplace hprepared) executor.finder extensions
  exact ⟨around, units, haround, hplace, hunits, hbelow⟩

/-- Projects of a batch cannot claim each other's sources. Whatever the settings scripts list and
wherever links lead, with or without a search for builds, the sources of a prepared project can be
listed, and they are files inside the directory that the project was found in; and two projects have
no source in common. -/
theorem batch_sources_confined (executor : Executor π ρ) (tree : FileTree) (corpus : Path)
    (hsound : tree.root.IsSound)
    (hresolver : executor.resolver = none ∨ executor.resolver = some buildRoot?) :
    (∀ project ∈ executor.projects tree corpus .batch, ∀ prepared extensions,
      executor.prepare tree project = .ok prepared →
      ∃ place units, tree.canonical project.root = .ok place ∧
        executor.finder.units tree prepared (.sources extensions) = .ok units ∧
        ∀ unit ∈ units, ∃ location content, tree.canonical unit.path = .ok location ∧
          place <+: location ∧ tree.root.at? location = some (.file content)) ∧
    ∀ first ∈ executor.projects tree corpus .batch, ∀ second ∈ executor.projects tree corpus .batch,
      first ≠ second → ∀ firstPrepared secondPrepared firstExtensions secondExtensions firstUnits
        secondUnits, executor.prepare tree first = .ok firstPrepared →
      executor.prepare tree second = .ok secondPrepared →
      executor.finder.units tree firstPrepared (.sources firstExtensions) = .ok firstUnits →
      executor.finder.units tree secondPrepared (.sources secondExtensions) = .ok secondUnits →
      (firstUnits.map (tree.canonical ·.path)).Disjoint
        (secondUnits.map (tree.canonical ·.path)) := by
  constructor
  · intro project hproject prepared extensions hprepared
    obtain ⟨around, units, _, hplace, hunits, hbelow⟩ :=
      exists_sources_of_batch hsound hresolver hproject hprepared extensions
    exact ⟨around ++ [project.name], units, hplace, hunits, hbelow⟩
  · intro first hfirst second hsecond hne firstPrepared secondPrepared firstExtensions
      secondExtensions firstUnits secondUnits hfirstPrepared hsecondPrepared hfirstUnits
      hsecondUnits
    obtain ⟨around, units, haround, _, hunits, hfirstBelow⟩ :=
      exists_sources_of_batch hsound hresolver hfirst hfirstPrepared firstExtensions
    obtain rfl : units = firstUnits := Except.ok.inj (hunits.symm.trans hfirstUnits)
    obtain ⟨other, others, hother, _, hothers, hsecondBelow⟩ :=
      exists_sources_of_batch hsound hresolver hsecond hsecondPrepared secondExtensions
    obtain rfl : others = secondUnits := Except.ok.inj (hothers.symm.trans hsecondUnits)
    obtain rfl : around = other := Except.ok.inj (haround.symm.trans hother)
    have hnames : first.name ≠ second.name := by
      obtain ⟨firstName, _, rfl⟩ := of_mem_batch hfirst
      obtain ⟨secondName, _, rfl⟩ := of_mem_batch hsecond
      rintro rfl
      exact hne rfl
    intro path hfirstPath hsecondPath
    obtain ⟨firstUnit, hfirstUnit, rfl⟩ := List.mem_map.mp hfirstPath
    obtain ⟨secondUnit, hsecondUnit, hshared⟩ := List.mem_map.mp hsecondPath
    obtain ⟨location, _, hlocation, hbelow, _⟩ := hfirstBelow firstUnit hfirstUnit
    obtain ⟨shared, _, hsharedLocation, hsharedBelow, _⟩ := hsecondBelow secondUnit hsecondUnit
    obtain rfl : shared = location := by
      simpa [hlocation, hsharedLocation] using hshared
    -- two names at the same depth cannot both be on the way to one location
    have hprefix := List.prefix_of_prefix_length_le hbelow hsharedBelow (by simp)
    exact hnames (by simpa using hprefix.eq_of_length (by simp))

/-- A corpus of two projects: the settings script of the first includes the second, once by its path
and once through a link, and the build of the first lies in a directory of its own. -/
def claimingCorpus : FileTree :=
  ⟨.directory [("c", .directory [
    ("a", .directory [("in", .directory [("A.kt", .file ⟨#[]⟩), ("build.gradle", .file ⟨#[]⟩),
      ("link", .link "../../b"),
      ("settings.gradle", .file "include '../../b', 'link'".toUTF8)])]),
    ("b", .directory [("B.kt", .file ⟨#[]⟩), ("settings.gradle", .file ⟨#[]⟩)])])], []⟩

/-- An executor that looks for builds and for modules. -/
def moduleExecutor : Executor Unit ModuleRecord :=
  ⟨moduleList, ProjectFinder.scriptFinder, ⟨⟨"out"⟩, "", "modules", .lines⟩, none,
    some buildRoot?⟩

/-- A project that includes its sibling still reads its own sources only, and none of the
sibling's. -/
theorem sibling_not_claimed :
    ∃ units others, moduleExecutor.finder.units claimingCorpus
        ⟨"a", ⟨"c/a/in"⟩, ⟨"c/a"⟩, [], none⟩ (.sources ["kt"]) = .ok units ∧
      moduleExecutor.finder.units claimingCorpus (.ofRoot "b" ⟨"c/b"⟩) (.sources ["kt"]) =
        .ok others ∧
      (∀ unit ∈ units, ∃ location, claimingCorpus.canonical unit.path = .ok location ∧
        ["c", "a"] <+: location) ∧
      (units.map (claimingCorpus.canonical ·.path)).Disjoint
        (others.map (claimingCorpus.canonical ·.path)) := by
  have hplace : claimingCorpus.canonical ⟨"c/a"⟩ = .ok ["c", "a"] := by decide +kernel
  have hfirst : Project.ofRoot "a" ⟨"c/a"⟩ ∈
      moduleExecutor.projects claimingCorpus ⟨"c"⟩ .batch := by decide +kernel
  have hsecond : Project.ofRoot "b" ⟨"c/b"⟩ ∈
      moduleExecutor.projects claimingCorpus ⟨"c"⟩ .batch := by decide +kernel
  have hfirstPrepared : moduleExecutor.prepare claimingCorpus (.ofRoot "a" ⟨"c/a"⟩) =
      .ok ⟨"a", ⟨"c/a/in"⟩, ⟨"c/a"⟩, [], none⟩ := by decide +kernel
  have hsecondPrepared : moduleExecutor.prepare claimingCorpus (.ofRoot "b" ⟨"c/b"⟩) =
      .ok (.ofRoot "b" ⟨"c/b"⟩) := by decide +kernel
  obtain ⟨hinside, hapart⟩ :=
    batch_sources_confined moduleExecutor claimingCorpus ⟨"c"⟩ (by decide +kernel) (Or.inr rfl)
  obtain ⟨place, units, hfirstPlace, hunits, hbelow⟩ := hinside _ hfirst _ ["kt"] hfirstPrepared
  obtain ⟨_, others, _, hothers, _⟩ := hinside _ hsecond _ ["kt"] hsecondPrepared
  obtain rfl : ["c", "a"] = place := Except.ok.inj (hplace.symm.trans hfirstPlace)
  refine ⟨units, others, hunits, hothers, fun unit hunit => ?_, ?_⟩
  · obtain ⟨location, _, hlocation, hprefix, _⟩ := hbelow unit hunit
    exact ⟨location, hlocation, hprefix⟩
  · exact hapart _ hfirst _ hsecond (by decide) _ _ _ _ _ _ hfirstPrepared hsecondPrepared hunits
      hothers

end Executor

end CorpusFacts
