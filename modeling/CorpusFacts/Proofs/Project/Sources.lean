import CorpusFacts.Gradle.IncludedModules
import CorpusFacts.Project.Units
import CorpusFacts.Proofs.Files.Resolution
import CorpusFacts.Proofs.Files.Walk
import CorpusFacts.Proofs.Project.Expansion
import Mathlib.Data.List.Nodup
import Mathlib.Data.List.Pairwise

/-!
# The sources of a project

The walk for the sources of a module lists each file once, in order of the names that lead to it. A
file is listed for two modules exactly where the walk of one goes into the directory of the other.
It goes past directories that modules are spelled by and past those with a marker, but it goes into
the directory of a module that is spelled in another way and has no marker.
-/

namespace CorpusFacts.ProjectFinder

/-- The walk for the sources of a module collects the file behind some names: it goes into
everything on the way, and the extension of the file is one of those asked for. -/
def Collects (finder : ProjectFinder) (tree : FileTree) (project : Project)
    (extensions : List String) (root : String × Path) (names : List String) : Prop :=
  ∃ start content, tree.walkStart root.2 = .ok start ∧ start.at? names = some (.file content) ∧
    start.Passes (finder.enters tree project root.1) root.2 [] names ∧
    extensions.contains (extensionOf (root.2.joins names)) = true

/-- The file behind some names in a module. -/
def sourceUnit (root : String × Path) (names : List String) : AnalysisUnit :=
  ⟨root.2.joins names, joinRelative root.1 ("/".intercalate names), root.1, false⟩

/-- The directory behind some names in a module is searched for sources of the module. -/
structure IsSearched (finder : ProjectFinder) (tree : FileTree) (project : Project)
    (root : String × Path) (names : List String) : Prop where
  /-- Its path in the project is not left out. -/
  included : finder.excluded.contains (joinRelative root.1 ("/".intercalate names)) = false
  /-- It is not hidden. -/
  visible : ∀ name ∈ names.getLast?, isHidden name = false
  /-- It is none of the directories that are never searched. -/
  unskipped : ∀ name ∈ names.getLast?, name ∉ skippedDirectories
  /-- No module is spelled like it. -/
  unlisted : ∀ module ∈ project.modules, module.root.sameAs (root.2.joins names) = false
  /-- It has no marker, where the project has modules. -/
  unmarked : project.isComposite = true → finder.hasMarker tree (root.2.joins names) = false

variable {finder : ProjectFinder} {tree : FileTree} {project expanded : Project}
  {extensions : List String} {root : String × Path} {location names : List String}

/-- A walk for sources goes into a directory that is searched. -/
theorem enters_directory_iff {entry : Entry} (hdirectory : entry.isDirectory = true)
    (hne : names ≠ []) :
    finder.enters tree project root.1 ⟨root.2.joins names, names, entry⟩ = true ↔
      IsSearched finder tree project root names := by
  obtain ⟨name, hname⟩ : ∃ name, names.getLast? = some name :=
    Option.ne_none_iff_exists'.mp (by simpa using hne)
  rw [enters]
  simp only [hdirectory, hname, Option.any_some, mayHoldSources, Bool.not_true,
    Bool.false_eq_true, if_false, Bool.if_false_left, Bool.and_eq_true, Bool.not_eq_true',
    Bool.and_eq_false_iff, decide_eq_false_iff_not, not_or, Bool.not_eq_true,
    Bool.not_eq_false', List.any_eq_false, List.contains_eq_mem]
  constructor
  · rintro ⟨hincluded, ⟨hvisible, hunskipped⟩, hunlisted, hunmarked⟩
    refine ⟨hincluded, ?_, ?_, hunlisted, fun hcomposite => ?_⟩
    · rintro _ hlast
      obtain rfl := Option.some.inj (hname.symm.trans hlast)
      exact hvisible
    · rintro _ hlast
      obtain rfl := Option.some.inj (hname.symm.trans hlast)
      exact hunskipped
    · exact hunmarked.resolve_left (by simp [hcomposite])
  · rintro ⟨hincluded, hvisible, hunskipped, hunlisted, hunmarked⟩
    refine ⟨hincluded, ⟨hvisible name hname, hunskipped name hname⟩, hunlisted, ?_⟩
    cases hcomposite : project.isComposite with
    | false => exact Or.inl rfl
    | true => exact Or.inr (hunmarked hcomposite)

/-- A walk for sources goes into anything else that is not left out. -/
theorem enters_other_iff {module : String} {met : Met} (hother : met.entry.isDirectory = false) :
    finder.enters tree project module met = true ↔
      finder.excluded.contains (joinRelative module ("/".intercalate met.names)) = false := by
  rw [enters, hother]
  simp

/-- A file that is collected lies behind its names at the location of the module. -/
theorem Collects.located (hsound : tree.root.IsSound)
    (h : Collects finder tree project extensions root names)
    (hroot : tree.canonical root.2 = .ok location) :
    tree.canonical (root.2.joins names) = .ok (location ++ names) ∧
      ∃ content, tree.root.at? (location ++ names) = some (.file content) := by
  obtain ⟨start, content, hstart, hfile, _, _⟩ := h
  -- nothing but the link itself lies at a link, so the walk does not start at one
  have hentry := FileTree.at?_of_walkStart hroot hstart (Entry.isLink_of_at? hfile rfl)
  have hat : tree.root.at? (location ++ names) = some (.file content) := by
    rw [Entry.at?_append, hentry]
    exact hfile
  have hnames := (hsound.at? hat).2
  refine ⟨?_, content, hat⟩
  exact FileTree.canonical_joins hroot
    (fun name hname => hnames name (List.mem_append_right _ hname)) hat rfl

/-- The sources of a module are the files that its walk collects, in ascending order of the names
behind the module. -/
theorem exists_moduleSources (hsound : tree.root.IsSound)
    (hroot : tree.canonical root.2 = .ok location) (finder : ProjectFinder) (project : Project)
    (extensions : List String) :
    ∃ found : List (List String), found.Pairwise (· < ·) ∧
      (∀ names, names ∈ found ↔ Collects finder tree project extensions root names) ∧
      finder.moduleSources tree project extensions root.1 root.2 =
        .ok (found.map (sourceUnit root)) := by
  obtain ⟨start, spot, hstart, hspot, _⟩ := FileTree.exists_walkStart hroot
  obtain ⟨mets, hwalk, hascending, hmets⟩ :=
    FileTree.exists_walk (finder.enters tree project root.1) hstart (hsound.at? hspot).1
  let isSource : Met → Bool := fun met =>
    met.entry.isFile && extensions.contains (extensionOf met.path)
  refine ⟨(mets.filter isSource).map (·.names), ?_, fun names => ?_, ?_⟩
  · exact hascending.sublist (List.filter_sublist.map _)
  · simp only [List.mem_map, List.mem_filter, hmets]
    constructor
    · rintro ⟨_, ⟨⟨names, entry, hentry, rfl, hpasses⟩, hsource⟩, rfl⟩
      obtain ⟨hfile, hextension⟩ := Bool.and_eq_true_iff.mp hsource
      cases entry with
      | file content => exact ⟨start, content, hstart, hentry, hpasses, hextension⟩
      | link target => cases hfile
      | directory entries => cases hfile
    · rintro ⟨other, content, hother, hfile, hpasses, hextension⟩
      obtain rfl : start = other := by simpa [hstart] using hother
      exact ⟨_, ⟨⟨names, _, hfile, rfl, hpasses⟩, Bool.and_eq_true_iff.mpr ⟨rfl, hextension⟩⟩, rfl⟩
  · rw [moduleSources, hwalk, List.map_map]
    refine congrArg Except.ok (List.map_congr_left fun met hmet => ?_)
    obtain ⟨names, entry, _, rfl, _⟩ := (hmets met).mp (List.mem_filter.mp hmet).1
    rfl

/-- The sources of a project are those of its modules, one after the other. -/
theorem exists_sources (hsound : tree.root.IsSound)
    (hroots : ∀ root ∈ project.moduleRoots, ∃ location, tree.canonical root.2 = .ok location)
    (finder : ProjectFinder) (extensions : List String) :
    ∃ found : String × Path → List (List String),
      (∀ root ∈ project.moduleRoots, (found root).Pairwise (· < ·) ∧
        ∀ names, names ∈ found root ↔ Collects finder tree project extensions root names) ∧
      finder.units tree project (.sources extensions) =
        .ok (project.moduleRoots.flatMap fun root => (found root).map (sourceUnit root)) := by
  have hmodules : ∀ root ∈ project.moduleRoots, ∃ found : List (List String),
      found.Pairwise (· < ·) ∧
      (∀ names, names ∈ found ↔ Collects finder tree project extensions root names) ∧
      finder.moduleSources tree project extensions root.1 root.2 =
        .ok (found.map (sourceUnit root)) := by
    intro root hmem
    obtain ⟨location, hroot⟩ := hroots root hmem
    exact exists_moduleSources hsound hroot finder project extensions
  choose! found hascending hcollects hunits using hmodules
  refine ⟨found, fun root hmem => ⟨hascending root hmem, hcollects root hmem⟩, ?_⟩
  have hall : ∀ roots : List (String × Path), roots ⊆ project.moduleRoots →
      (roots.mapM fun root => finder.moduleSources tree project extensions root.1 root.2) =
        .ok (roots.map fun root => (found root).map (sourceUnit root)) := by
    intro roots hsubset
    induction roots with
    | nil => rfl
    | cons root roots ih =>
      obtain ⟨hmem, hrest⟩ := List.cons_subset.mp hsubset
      rw [List.mapM_cons, hunits root hmem, ih hrest]
      rfl
  rw [units, sources, hall _ (List.Subset.refl _), List.flatMap_def]
  rfl

/-- What the walks of a project collect are files below what its root and its modules all lie
in. -/
theorem located_of_mem_sources {place : List String} {found : String × Path → List (List String)}
    {unit : AnalysisUnit} (hsound : tree.root.IsSound)
    (hroots : ∀ root ∈ project.moduleRoots,
      ∃ location, tree.canonical root.2 = .ok location ∧ place <+: location)
    (hfound : ∀ root ∈ project.moduleRoots, ∀ names ∈ found root,
      Collects finder tree project extensions root names)
    (hunit : unit ∈ project.moduleRoots.flatMap fun root => (found root).map (sourceUnit root)) :
    ∃ location content, tree.canonical unit.path = .ok location ∧ place <+: location ∧
      tree.root.at? location = some (.file content) := by
  obtain ⟨root, hmem, hunit⟩ := List.mem_flatMap.mp hunit
  obtain ⟨names, hnames, rfl⟩ := List.mem_map.mp hunit
  obtain ⟨location, hlocation, hbelow⟩ := hroots root hmem
  obtain ⟨hcanonical, content, hfile⟩ := (hfound root hmem names hnames).located hsound hlocation
  exact ⟨_, content, hcanonical, hbelow.trans (List.prefix_append _ _), hfile⟩

/-- The sources of a project are files below what its root and its modules all lie in. -/
theorem exists_sources_below {place : List String} (hsound : tree.root.IsSound)
    (hroots : ∀ root ∈ project.moduleRoots,
      ∃ location, tree.canonical root.2 = .ok location ∧ place <+: location)
    (finder : ProjectFinder) (extensions : List String) :
    ∃ units, finder.units tree project (.sources extensions) = .ok units ∧
      ∀ unit ∈ units, ∃ location content, tree.canonical unit.path = .ok location ∧
        place <+: location ∧ tree.root.at? location = some (.file content) := by
  obtain ⟨found, hfound, hunits⟩ := exists_sources hsound
    (fun root hmem => (hroots root hmem).imp fun _ hplace => hplace.1) finder extensions
  exact ⟨_, hunits, fun unit hunit => located_of_mem_sources hsound hroots
    (fun root hmem names => ((hfound root hmem).2 names).mp) hunit⟩

/-- The root and the modules of an expanded project lie at different locations, and the modules are
directories. -/
theorem moduleRoots_of_expandModules
    (hexpanded : finder.expandModules tree project = .ok expanded) :
    (∀ root ∈ expanded.moduleRoots, ∃ place, tree.canonical root.2 = .ok place) ∧
      (expanded.moduleRoots.map (tree.canonical ·.2)).Nodup ∧
      ∀ module ∈ expanded.modules, tree.isDirectory module.root = true := by
  obtain ⟨location, boundary, locations, hroot, _, hshape, hdistinguishes⟩ :=
    distinguishes_of_expandModules hexpanded
  have hexpandedRoot : tree.canonical expanded.root = .ok location := by
    rw [hshape]
    exact hroot
  have hplaces : expanded.moduleRoots.map (tree.canonical ·.2) =
      (location :: locations).map Except.ok := by
    rw [Project.moduleRoots, List.map_cons, List.map_map, hexpandedRoot, List.map_cons,
      ← canonical_roots hdistinguishes.located]
    rfl
  refine ⟨fun root hmem => ?_, ?_, fun module hmem => ?_⟩
  · have hplace := List.mem_map_of_mem (f := (tree.canonical ·.2)) hmem
    rw [hplaces] at hplace
    obtain ⟨place, _, hplace⟩ := List.mem_map.mp hplace
    exact ⟨place, hplace.symm⟩
  · rw [hplaces]
    exact hdistinguishes.distinct.map fun _ _ heq => Except.ok.inj heq
  · obtain ⟨_, hdirectory, _⟩ := hdistinguishes.located_of_mem hmem
    exact hdirectory

/-- No module of an expanded project has the module path of the root. -/
theorem relative_ne_root_of_expandModules
    (hexpanded : finder.expandModules tree project = .ok expanded) :
    ∀ module ∈ expanded.modules, module.relative ≠ rootModule := by
  intro module hmodule heq
  obtain ⟨_, hplaces, _⟩ := moduleRoots_of_expandModules hexpanded
  obtain ⟨_, _, _, _, _, hshape, _⟩ := distinguishes_of_expandModules hexpanded
  obtain ⟨_, _, hreached⟩ := reached_of_expandModules hexpanded
  have hroot : expanded.root = project.root := by rw [hshape]
  rcases (hreached module hmodule).spelled with ⟨hsame, _⟩ | ⟨hpath, _⟩
  · refine (List.nodup_cons.mp hplaces).1 (List.mem_map.mpr ⟨(module.relative, module.root), ?_, ?_⟩)
    · exact List.mem_map_of_mem hmodule
    · rw [hsame, hroot]
  · exact hpath.ne_root heq

/-- The walk for the sources of a module goes into the directory of another one and collects a file
there that the walk of the other one collects too. -/
def Overlaps (finder : ProjectFinder) (tree : FileTree) (project : Project)
    (extensions : List String) (outer inner : String × Path) : Prop :=
  ∃ location steps names, steps ≠ [] ∧ tree.canonical outer.2 = .ok location ∧
    tree.canonical inner.2 = .ok (location ++ steps) ∧
    Collects finder tree project extensions outer (steps ++ names) ∧
    Collects finder tree project extensions inner names

/-- No module overlaps with itself. -/
theorem Overlaps.irrefl : ¬ Overlaps finder tree project extensions root root := by
  rintro ⟨location, steps, names, hne, houter, hinner, _⟩
  exact hne (by simpa [houter] using hinner)

/-- The canonical paths of what the walk of a module collects. -/
theorem mem_canonical_sources {found : List (List String)} {path : Except FileFailure (List String)}
    (hfound : ∀ names, names ∈ found ↔ Collects finder tree project extensions root names) :
    path ∈ (found.map (sourceUnit root)).map (tree.canonical ·.path) ↔
      ∃ names, Collects finder tree project extensions root names ∧
        tree.canonical (root.2.joins names) = path := by
  simp only [List.map_map, List.mem_map, hfound]
  rfl

/-- The walk of one module lists no file twice. -/
theorem canonical_sources_nodup {found : List (List String)} (hsound : tree.root.IsSound)
    (hroot : tree.canonical root.2 = .ok location) (hascending : found.Pairwise (· < ·))
    (hfound : ∀ names, names ∈ found ↔ Collects finder tree project extensions root names) :
    ((found.map (sourceUnit root)).map (tree.canonical ·.path)).Nodup := by
  have hnodup : found.Nodup := by
    refine hascending.imp ?_
    rintro names _ hlt rfl
    exact List.lt_irrefl _ hlt
  rw [List.map_map]
  refine hnodup.map_on fun names hnames others hothers heq => ?_
  have hnamesPlace := (((hfound names).mp hnames).located hsound hroot).1
  have hothersPlace := (((hfound others).mp hothers).located hsound hroot).1
  simp only [Function.comp, sourceUnit, hnamesPlace, hothersPlace] at heq
  exact List.append_cancel_left (Except.ok.inj heq)

/-- A file of the inner one of two modules that overlap is collected by both walks. -/
theorem Overlaps.exists_common {outer inner : String × Path}
    {outerFound innerFound : List (List String)} (hsound : tree.root.IsSound)
    (h : Overlaps finder tree project extensions outer inner)
    (houterFound : ∀ names, names ∈ outerFound ↔
      Collects finder tree project extensions outer names)
    (hinnerFound : ∀ names, names ∈ innerFound ↔
      Collects finder tree project extensions inner names) :
    ∃ path, path ∈ (outerFound.map (sourceUnit outer)).map (tree.canonical ·.path) ∧
      path ∈ (innerFound.map (sourceUnit inner)).map (tree.canonical ·.path) := by
  obtain ⟨place, steps, names, _, houter, hinner, houterNames, hinnerNames⟩ := h
  refine ⟨_, (mem_canonical_sources houterFound).mpr ⟨_, houterNames, rfl⟩,
    (mem_canonical_sources hinnerFound).mpr ⟨_, hinnerNames, ?_⟩⟩
  rw [(houterNames.located hsound houter).1, (hinnerNames.located hsound hinner).1,
    List.append_assoc]

/-- The walks of two modules at different locations have no file in common if and only if the
modules do not overlap. -/
theorem disjoint_iff_not_overlaps {first second : String × Path}
    {firstFound secondFound : List (List String)} {firstPlace secondPlace : List String}
    (hsound : tree.root.IsSound) (hfirst : tree.canonical first.2 = .ok firstPlace)
    (hsecond : tree.canonical second.2 = .ok secondPlace) (hne : firstPlace ≠ secondPlace)
    (hfirstFound : ∀ names, names ∈ firstFound ↔
      Collects finder tree project extensions first names)
    (hsecondFound : ∀ names, names ∈ secondFound ↔
      Collects finder tree project extensions second names) :
    ((firstFound.map (sourceUnit first)).map (tree.canonical ·.path)).Disjoint
        ((secondFound.map (sourceUnit second)).map (tree.canonical ·.path)) ↔
      ¬ Overlaps finder tree project extensions first second ∧
        ¬ Overlaps finder tree project extensions second first := by
  constructor
  · intro hdisjoint
    constructor
    · intro hoverlaps
      obtain ⟨path, hfirstPath, hsecondPath⟩ :=
        hoverlaps.exists_common hsound hfirstFound hsecondFound
      exact hdisjoint hfirstPath hsecondPath
    · intro hoverlaps
      obtain ⟨path, hsecondPath, hfirstPath⟩ :=
        hoverlaps.exists_common hsound hsecondFound hfirstFound
      exact hdisjoint hfirstPath hsecondPath
  · rintro ⟨hsecondOutside, hfirstOutside⟩ path hfirstPath hsecondPath
    obtain ⟨firstNames, hfirstNames, rfl⟩ := (mem_canonical_sources hfirstFound).mp hfirstPath
    obtain ⟨secondNames, hsecondNames, hshared⟩ :=
      (mem_canonical_sources hsecondFound).mp hsecondPath
    rw [(hfirstNames.located hsound hfirst).1, (hsecondNames.located hsound hsecond).1] at hshared
    have hplaces : firstPlace ++ firstNames = secondPlace ++ secondNames :=
      (Except.ok.inj hshared).symm
    -- one location lies on the way to the common file behind the other
    rcases List.append_eq_append_iff.mp hplaces with ⟨steps, rfl, rfl⟩ | ⟨steps, rfl, rfl⟩
    · exact hsecondOutside ⟨firstPlace, steps, secondNames, by simpa using hne, hfirst, hsecond,
        hfirstNames, hsecondNames⟩
    · exact hfirstOutside ⟨secondPlace, steps, firstNames, by simpa using hne.symm, hsecond,
        hfirst, hsecondNames, hfirstNames⟩

/-- A module overlaps with one in a directory that has no marker as the walk spells it, and that no
module is spelled by in this way. -/
theorem Overlaps.spelled_otherwise {outer inner : String × Path}
    (h : Overlaps finder tree project extensions outer inner)
    (hdirectory : tree.isDirectory inner.2 = true) (hcomposite : project.isComposite = true) :
    ∃ location steps, tree.canonical outer.2 = .ok location ∧
      tree.canonical inner.2 = .ok (location ++ steps) ∧
      finder.hasMarker tree (outer.2.joins steps) = false ∧
      ∀ module ∈ project.modules, module.root.sameAs (outer.2.joins steps) = false := by
  obtain ⟨location, steps, names, hne, houter, hinner,
    ⟨start, content, hstart, hfile, hpasses, _⟩, _⟩ := h
  have hentry := FileTree.at?_of_walkStart houter hstart (Entry.isLink_of_at? hfile rfl)
  rw [Entry.at?_append, Option.bind_eq_some_iff] at hfile
  obtain ⟨entry, hway, _⟩ := hfile
  have hentryDirectory : entry.isDirectory = true := by
    obtain ⟨place, hplace, hat⟩ := FileTree.location_of_isDirectory hdirectory
    obtain rfl : location ++ steps = place := by simpa [hinner] using hplace
    simpa [FileTree.isDirectoryAt, Entry.at?_append, hentry, hway] using hat
  have hsearched := (enters_directory_iff hentryDirectory hne).mp
    (hpasses steps entry (List.prefix_append _ _) hne hway)
  exact ⟨location, steps, houter, hinner, hsearched.unmarked hcomposite, hsearched.unlisted⟩

/-- Different elements with lists of their own have no element of these in common if and only if no
element comes twice in all the lists. -/
theorem nodup_flatMap_iff {α β : Type} {f : α → List β} {as : List α} (has : as.Nodup)
    (hf : ∀ a ∈ as, (f a).Nodup) :
    (as.flatMap f).Nodup ↔ ∀ a ∈ as, ∀ b ∈ as, a ≠ b → (f a).Disjoint (f b) := by
  rw [List.nodup_flatMap]
  constructor
  · rintro ⟨_, hdisjoint⟩ a ha b hb hne
    have : Std.Symm (Function.onFun List.Disjoint f) := ⟨fun _ _ h _ hb ha => h ha hb⟩
    exact hdisjoint.forall ha hb hne
  · intro hdisjoint
    exact ⟨hf, has.pairwise_of_forall_ne hdisjoint⟩

/-- The walks of a project with its root and modules at different locations list no file twice if
and only if none of these overlaps with another. -/
theorem canonical_nodup_iff {found : String × Path → List (List String)}
    (hsound : tree.root.IsSound)
    (hroots : ∀ root ∈ project.moduleRoots, ∃ place, tree.canonical root.2 = .ok place)
    (hplaces : (project.moduleRoots.map (tree.canonical ·.2)).Nodup)
    (hfound : ∀ root ∈ project.moduleRoots, (found root).Pairwise (· < ·) ∧
      ∀ names, names ∈ found root ↔ Collects finder tree project extensions root names) :
    ((project.moduleRoots.flatMap fun root => (found root).map (sourceUnit root)).map
        (tree.canonical ·.path)).Nodup ↔
      ∀ outer ∈ project.moduleRoots, ∀ inner ∈ project.moduleRoots,
        ¬ Overlaps finder tree project extensions outer inner := by
  have hapart : ∀ outer ∈ project.moduleRoots, ∀ inner ∈ project.moduleRoots, outer ≠ inner →
      ((((found outer).map (sourceUnit outer)).map (tree.canonical ·.path)).Disjoint
        (((found inner).map (sourceUnit inner)).map (tree.canonical ·.path)) ↔
      ¬ Overlaps finder tree project extensions outer inner ∧
        ¬ Overlaps finder tree project extensions inner outer) := by
    intro outer houter inner hinner hne
    obtain ⟨outerPlace, houterPlace⟩ := hroots outer houter
    obtain ⟨innerPlace, hinnerPlace⟩ := hroots inner hinner
    refine disjoint_iff_not_overlaps hsound houterPlace hinnerPlace ?_ (hfound outer houter).2
      (hfound inner hinner).2
    rintro rfl
    exact hne (List.inj_on_of_nodup_map hplaces houter hinner
      (houterPlace.trans hinnerPlace.symm))
  rw [List.map_flatMap, nodup_flatMap_iff (hplaces.of_map _)]
  · constructor
    · intro hdisjoint outer houter inner hinner hoverlaps
      have hne : outer ≠ inner := by
        rintro rfl
        exact Overlaps.irrefl hoverlaps
      exact ((hapart outer houter inner hinner hne).mp
        (hdisjoint outer houter inner hinner hne)).1 hoverlaps
    · intro hnone outer houter inner hinner hne
      exact (hapart outer houter inner hinner hne).mpr
        ⟨hnone outer houter inner hinner, hnone inner hinner outer houter⟩
  · intro root hmem
    obtain ⟨place, hplace⟩ := hroots root hmem
    exact canonical_sources_nodup hsound hplace (hfound root hmem).1 (hfound root hmem).2

/-- The sources of an expanded project can always be listed, and each is a file with a canonical
location. No two of them have the same one, so that each file of the project is analyzed once, if
and only if no module overlaps with another: a file is listed twice exactly where the walk for one
module goes into the directory of another one. That happens to a module only if its directory has
no marker and if every module is spelled otherwise than the walk spells the directory. -/
theorem sources_nodup_iff (hsound : tree.root.IsSound)
    (hexpanded : finder.expandModules tree project = .ok expanded) (extensions : List String) :
    ∃ units, finder.units tree expanded (.sources extensions) = .ok units ∧
      (∀ unit ∈ units, ∃ location content, tree.canonical unit.path = .ok location ∧
        tree.root.at? location = some (.file content)) ∧
      ((units.map (tree.canonical ·.path)).Nodup ↔
        ∀ outer ∈ expanded.moduleRoots, ∀ inner ∈ expanded.moduleRoots,
          ¬ Overlaps finder tree expanded extensions outer inner) ∧
      ∀ outer ∈ expanded.moduleRoots, ∀ inner ∈ expanded.modules,
        Overlaps finder tree expanded extensions outer (inner.relative, inner.root) →
        ∃ location steps, tree.canonical outer.2 = .ok location ∧
          tree.canonical inner.root = .ok (location ++ steps) ∧
          finder.hasMarker tree (outer.2.joins steps) = false ∧
          ∀ module ∈ expanded.modules, module.root.sameAs (outer.2.joins steps) = false := by
  obtain ⟨hroots, hplaces, hdirectories⟩ := moduleRoots_of_expandModules hexpanded
  obtain ⟨found, hfound, hunits⟩ := exists_sources hsound hroots finder extensions
  refine ⟨_, hunits, fun unit hunit => ?_, canonical_nodup_iff hsound hroots hplaces hfound, ?_⟩
  · obtain ⟨place, content, hplace, _, hfile⟩ := located_of_mem_sources hsound
      (fun root hmem => (hroots root hmem).imp fun _ hplace => ⟨hplace, List.nil_prefix⟩)
      (fun root hmem names => ((hfound root hmem).2 names).mp) hunit
    exact ⟨place, content, hplace, hfile⟩
  · intro outer houter inner hinner hoverlaps
    have hcomposite : expanded.isComposite = true := by
      simpa [Project.isComposite] using List.ne_nil_of_mem hinner
    exact hoverlaps.spelled_otherwise (hdirectories inner hinner) hcomposite

/-- A finder that takes settings scripts for markers and for what lists modules. -/
def scriptFinder : ProjectFinder :=
  ⟨Gradle.settingsScripts, ⟨[]⟩, Gradle.listedModules⟩

/-- A project whose settings script includes one module, with one source in the module. -/
def oneModule (included : String) : FileTree :=
  ⟨.directory [("p", .directory [("b", .directory [("A.kt", .file ⟨#[]⟩)]),
    ("settings.gradle", .file ("include '" ++ included ++ "'").toUTF8)])], []⟩

/-- The project of `oneModule`, expanded. -/
def oneModuleProject (included : String) : Project :=
  ⟨"p", ⟨"p"⟩, ⟨"p"⟩, [⟨included, ⟨"p/" ++ included⟩⟩], none⟩

/-- A module that is included by its name does not overlap with the root. -/
theorem named_module_apart :
    scriptFinder.expandModules (oneModule "b") (.ofRoot "p" ⟨"p"⟩) = .ok (oneModuleProject "b") ∧
      ∀ outer ∈ (oneModuleProject "b").moduleRoots, ∀ inner ∈ (oneModuleProject "b").moduleRoots,
        ¬ Overlaps scriptFinder (oneModule "b") (oneModuleProject "b") ["kt"] outer inner := by
  have hsound : (oneModule "b").root.IsSound := by decide +kernel
  have hexpanded : scriptFinder.expandModules (oneModule "b") (.ofRoot "p" ⟨"p"⟩) =
      .ok (oneModuleProject "b") := by decide +kernel
  obtain ⟨units, hunits, _, hnodup, _⟩ := sources_nodup_iff hsound hexpanded ["kt"]
  have hlisted : scriptFinder.units (oneModule "b") (oneModuleProject "b") (.sources ["kt"]) =
      .ok [⟨⟨"p/b/A.kt"⟩, "b/A.kt", "b", false⟩] := by decide +kernel
  obtain rfl : _ = units := Except.ok.inj (hlisted.symm.trans hunits)
  exact ⟨hexpanded, hnodup.mp (by decide +kernel)⟩

/-- A module that is included by a detour is walked twice, and its source is listed twice. -/
theorem detoured_module_twice :
    ¬ ∀ (finder : ProjectFinder) (tree : FileTree) (project expanded : Project)
      (extensions : List String) (units : List AnalysisUnit), tree.root.IsSound →
      finder.expandModules tree project = .ok expanded →
      finder.units tree expanded (.sources extensions) = .ok units →
      (units.map (tree.canonical ·.path)).Nodup := by
  intro hall
  have hsound : (oneModule "../p/b").root.IsSound := by decide +kernel
  have hexpanded : scriptFinder.expandModules (oneModule "../p/b") (.ofRoot "p" ⟨"p"⟩) =
      .ok (oneModuleProject "../p/b") := by decide +kernel
  have hlisted : scriptFinder.units (oneModule "../p/b") (oneModuleProject "../p/b")
      (.sources ["kt"]) = .ok [⟨⟨"p/b/A.kt"⟩, "b/A.kt", ".", false⟩,
        ⟨⟨"p/../p/b/A.kt"⟩, "../p/b/A.kt", "../p/b", false⟩] := by decide +kernel
  exact absurd (hall _ _ _ _ _ _ hsound hexpanded hlisted) (by decide +kernel)

end CorpusFacts.ProjectFinder
