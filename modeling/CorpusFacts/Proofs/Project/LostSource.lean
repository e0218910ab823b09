import CorpusFacts.Proofs.Files.Likeness
import CorpusFacts.Proofs.Files.Settling
import CorpusFacts.Proofs.Project.Rediscovery
import CorpusFacts.Proofs.Project.Relisting
import CorpusFacts.Proofs.Project.SelectedSources

/-!
# Projects that lose a source

A source that is neither a marker nor a script of the build is looked at by nothing but the search
for sources. When it is gone, the build and the modules of a project are found as before, and so are
its sources, but for the one that is gone.
-/

/-! ## Trees that lose a file

Removing a file takes it out of its directory and changes nothing else. Where no links are, a path
that led to something else leads there still, and one that led to the file leads nowhere. -/

namespace CorpusFacts.FileTree

variable {tree later : FileTree} {place location : List String} {path : Path} {name : String}

/-- A tree without links loses the file at a place, and nothing else changes. -/
structure LosesFile (tree later : FileTree) (place : List String) : Prop where
  /-- There are no links. -/
  linkless : tree.IsLinkless
  /-- The tree is sound. -/
  sound : tree.root.IsSound
  /-- The later tree is sound. -/
  laterSound : later.root.IsSound
  /-- The working directory is the same. -/
  working : later.working = tree.working
  /-- There was a file. -/
  file : tree.kindAt place = some .file
  /-- Nothing is there now. -/
  gone : later.faceAt place = none
  /-- Everything else is seen as before. -/
  faces : ∀ location, location ≠ place → later.faceAt location = tree.faceAt location

/-- Nothing lies in a file. -/
theorem faceAt_below_file {rest : List String} (h : tree.kindAt location = some .file)
    (hrest : rest ≠ []) : tree.faceAt (location ++ rest) = none := by
  obtain ⟨content, hfile⟩ := kindAt_eq_file_iff.mp h
  obtain ⟨name, rest, rfl⟩ := List.exists_cons_of_ne_nil hrest
  rw [faceAt, Entry.at?_append, hfile]
  rfl

/-- A file to which a path leads can be removed, and the tree loses it. -/
theorem exists_remove (hsound : tree.root.IsSound) (hlinkless : tree.IsLinkless)
    (h : tree.canonical path = .ok place) (hfile : tree.kindAt place = some .file) :
    ∃ later, tree.remove path = .ok later ∧ tree.LosesFile later place := by
  obtain ⟨content, hcontent⟩ := kindAt_eq_file_iff.mp hfile
  rcases List.eq_nil_or_concat place with rfl | ⟨directory, name, rfl⟩
  · have hroot := isDirectoryAt_iff_kindAt.mp (isDirectoryAt_nil hlinkless.working)
    rw [hfile] at hroot
    cases hroot
  rw [List.concat_eq_append] at *
  have hresolve := hlinkless.resolve_eq path ▸ resolve_of_canonical h
  have hdirectory := isDirectoryAt_of_at? hcontent
  let later : FileTree := { tree with root := tree.root.modify (Entry.erase name) directory }
  have hremove : tree.remove path = .ok later := by
    simp only [remove, hresolve, bind, Except.bind, List.getLast?_concat, List.dropLast_concat]
    rfl
  -- under the name of the file nothing is found any more
  have hnothing : ∀ rest, later.faceAt (directory ++ name :: rest) = none := by
    intro rest
    obtain ⟨entries, hentries⟩ := exists_entries hdirectory
    rw [faceAt, Entry.at?_modify_inside hentries, Entry.at?, Entry.find?_erase, if_pos rfl]
    rfl
  refine ⟨later, hremove, hlinkless, hsound, remove_isSound hsound hremove, rfl, hfile,
    hnothing [], fun location hne => ?_⟩
  by_cases hbelow : directory ++ [name] <+: location
  · obtain ⟨rest, rfl⟩ := hbelow
    rw [faceAt_below_file hfile (by simpa using hne), List.append_assoc]
    exact hnothing rest
  · exact faceAt_modify_outside (Entry.changesOnly_erase name) hdirectory hbelow

namespace LosesFile

/-- Everything else keeps its kind. -/
theorem kindAt_eq (h : tree.LosesFile later place) (hne : location ≠ place) :
    later.kindAt location = tree.kindAt location := by
  rw [kindAt, kindAt, h.faces location hne]

/-- Where the file was, there is nothing. -/
theorem kindAt_place (h : tree.LosesFile later place) : later.kindAt place = none := by
  rw [kindAt, h.gone]
  rfl

/-- There are files where there were, but for the one that is lost. -/
theorem at?_eq_file_iff (h : tree.LosesFile later place) {content : ByteArray} :
    later.root.at? location = some (.file content) ↔
      tree.root.at? location = some (.file content) ∧ location ≠ place := by
  by_cases hne : location = place
  · subst hne
    simp [at?_eq_none_iff.mpr h.gone]
  · rw [FileTree.at?_eq_file_iff, FileTree.at?_eq_file_iff, h.faces location hne]
    exact (and_iff_left hne).symm

/-- There are directories where there were. -/
theorem isDirectoryAt_eq (h : tree.LosesFile later place) (location : List String) :
    later.isDirectoryAt location = tree.isDirectoryAt location := by
  rw [Bool.eq_iff_iff, isDirectoryAt_iff_kindAt, isDirectoryAt_iff_kindAt]
  by_cases hne : location = place
  · simp [hne, h.kindAt_place, h.file]
  · rw [h.kindAt_eq hne]

/-- No directory is lost. -/
theorem ne_of_isDirectoryAt (h : tree.LosesFile later place)
    (hdirectory : tree.isDirectoryAt location = true) : location ≠ place := by
  rintro rfl
  rw [isDirectoryAt_iff_kindAt, h.file] at hdirectory
  cases hdirectory

/-- There are no links. -/
theorem laterLinkless (h : tree.LosesFile later place) : later.IsLinkless where
  plain location := by
    by_cases hne : location = place
    · simp [hne, h.kindAt_place]
    · rw [h.kindAt_eq hne]
      exact h.linkless.plain location
  working := by
    rw [h.working, h.isDirectoryAt_eq]
    exact h.linkless.working

/-- A path leads to a directory as before. -/
theorem isDirectory_eq (h : tree.LosesFile later place) (path : Path) :
    later.isDirectory path = tree.isDirectory path :=
  isDirectory_congr h.working (h.linkless.avoidsLinks path) (h.laterLinkless.avoidsLinks path)
    fun spot _ => h.isDirectoryAt_eq spot

/-- A path leads where it did, unless that was the file. -/
theorem canonical_eq_ok_iff (h : tree.LosesFile later place) :
    later.canonical path = .ok location ↔ tree.canonical path = .ok location ∧ location ≠ place := by
  have hstart : later.startOf path = tree.startOf path := by rw [startOf, startOf, h.working]
  have hpassable : later.IsPassable (tree.startOf path) path.segments ↔
      tree.IsPassable (tree.startOf path) path.segments :=
    isPassable_congr fun spot _ => h.isDirectoryAt_eq spot
  rw [(h.linkless.avoidsLinks path).canonical_eq_ok_iff,
    (h.laterLinkless.avoidsLinks path).canonical_eq_ok_iff, placeOf, placeOf, hstart, hpassable]
  by_cases hne : location = place
  · subst hne
    simp [at?_eq_none_iff.mpr h.gone]
  · simp only [ne_eq, at?_eq_none_iff, h.faces location hne, hne, not_false_eq_true, and_true]

/-- A path to another file shows the same. -/
theorem showsSame (h : tree.LosesFile later place) (hfile : tree.isFile path = true)
    (hne : tree.canonical path ≠ .ok place) : tree.ShowsSame later path := by
  obtain ⟨location, content, hcanonical, hcontent⟩ := isFile_iff.mp hfile
  have hother : location ≠ place := fun heq => hne (heq ▸ hcanonical)
  refine ⟨by rw [h.canonical_eq_ok_iff.mpr ⟨hcanonical, hother⟩, hcanonical], ?_⟩
  rintro _ hsame
  obtain rfl := Except.ok.inj (hcanonical.symm.trans hsame)
  rw [hcontent, h.at?_eq_file_iff]
  exact ⟨hcontent, hother⟩

/-- A path leads to a file as before, unless that was the one that is lost. -/
theorem isFile_eq (h : tree.LosesFile later place) (hne : tree.canonical path ≠ .ok place) :
    later.isFile path = tree.isFile path := by
  rw [Bool.eq_iff_iff]
  constructor
  · rw [isFile_iff, isFile_iff]
    rintro ⟨location, content, hcanonical, hcontent⟩
    exact ⟨location, content, (h.canonical_eq_ok_iff.mp hcanonical).1,
      (h.at?_eq_file_iff.mp hcontent).1⟩
  · intro hfile
    rwa [(h.showsSame hfile hne).isFile_eq]

/-- A file of another name is not the one that is lost. -/
theorem canonical_join_ne (h : tree.LosesFile later place) (hname : IsPlainName name)
    (hne : place.getLast? ≠ some name) (path : Path) :
    tree.canonical (path.join name) ≠ .ok place := by
  intro hcanonical
  obtain ⟨hplace, _⟩ := (h.linkless.avoidsLinks _).canonical_eq_ok_iff.mp hcanonical
  rw [(spotsOf_join_name tree path hname).1] at hplace
  exact hne (by rw [hplace, List.getLast?_concat])

end LosesFile

end CorpusFacts.FileTree

/-! ## What a project finds -/

namespace CorpusFacts

open FileTree (LosesFile)

variable {tree later : FileTree} {place location names : List String} {path directory : Path}
  {finder : ProjectFinder} {project : Project} {extensions : List String} {root : String × Path}

/-- The build scripts of a project have plain names. -/
theorem Gradle.isPlainName_of_mem_buildScripts {name : String} (h : name ∈ buildScripts) :
    IsPlainName name := by
  revert name
  decide

/-- A tree loses a file that is neither a marker of projects nor a script of a build. -/
structure LosesSource (finder : ProjectFinder) (tree later : FileTree) (place : List String) : Prop
    extends tree.LosesFile later place where
  /-- The markers have plain names, and the file has another one. -/
  markers : ∀ marker ∈ finder.markers, IsPlainName marker ∧ place.getLast? ≠ some marker
  /-- The file is no script. -/
  notScript : ∀ name ∈ Gradle.settingsScripts ++ Gradle.buildScripts, place.getLast? ≠ some name
  /-- Modules are found in settings scripts. -/
  lister : finder.lister = Gradle.listedModules

namespace LosesSource

/-- A directory has a marker as before. -/
theorem hasMarker_eq (h : LosesSource finder tree later place) (directory : Path) :
    finder.hasMarker later directory = finder.hasMarker tree directory := by
  refine any_isFile_congr fun marker hmarker => ?_
  obtain ⟨hplain, hne⟩ := h.markers marker hmarker
  exact h.isFile_eq (h.canonical_join_ne hplain hne directory)

/-- A directory has a build script as before. -/
theorem hasBuildScript_eq (h : LosesSource finder tree later place) (directory : Path) :
    hasBuildScript later directory = hasBuildScript tree directory := by
  refine any_isFile_congr fun name hname => h.isFile_eq ?_
  exact h.canonical_join_ne (Gradle.isPlainName_of_mem_buildScripts hname)
    (h.notScript name (List.mem_append_right _ hname)) directory

/-- The modules of a directory are listed as before. -/
theorem listedModules_eq (h : LosesSource finder tree later place) (directory : Path) :
    finder.lister later directory = finder.lister tree directory := by
  have hother : ∀ name ∈ Gradle.settingsScripts,
      tree.canonical (directory.join name) ≠ .ok place := fun name hname =>
    h.canonical_join_ne (Gradle.isPlainName_of_mem_settingsScripts hname)
      (h.notScript name (List.mem_append_left _ hname)) directory
  rw [h.lister]
  exact Gradle.listedModules_eq (fun name hname => h.isFile_eq (hother name hname))
    fun name hname hfile => (h.showsSame hfile (hother name hname)).read_eq

/-- The build of a directory is found as before. -/
theorem buildRoot?_eq (h : LosesSource finder tree later place) (directory : Path) :
    buildRoot? later directory = buildRoot? tree directory := by
  refine buildRoot?_congr (fun directory => ?_) h.hasBuildScript_eq directory
  refine ProjectFinder.visibleDirectories_congr h.sound h.laterSound fun name location => ?_
  rw [h.isDirectoryAt_eq, h.canonical_eq_ok_iff]
  refine ⟨fun ⟨⟨hcanonical, _⟩, hinner⟩ => ⟨hcanonical, hinner⟩, fun ⟨hcanonical, hinner⟩ =>
    ⟨⟨hcanonical, h.ne_of_isDirectoryAt ?_⟩, hinner⟩⟩
  -- a directory lies in the location, so that it is one itself
  have haround := FileTree.isDirectoryAt_dropLast hinner
  rwa [List.dropLast_concat] at haround

/-- A directory is found where it was. -/
theorem exists_canonical (h : LosesSource finder tree later place)
    (hdirectory : tree.isDirectory path = true) :
    ∃ location, tree.canonical path = .ok location ∧ later.canonical path = .ok location ∧
      tree.isDirectoryAt location = true := by
  obtain ⟨location, hlocation, hat⟩ := FileTree.location_of_isDirectory hdirectory
  exact ⟨location, hlocation,
    h.canonical_eq_ok_iff.mpr ⟨hlocation, h.ne_of_isDirectoryAt hat⟩, hat⟩

/-- The modules of a project are found as before. -/
theorem expandModules_eq (h : LosesSource finder tree later place)
    (hroot : tree.isDirectory project.root = true)
    (hboundary : tree.isDirectory project.boundary = true) :
    finder.expandModules later project = finder.expandModules tree project := by
  obtain ⟨location, hlocation, hlaterLocation, _⟩ := h.exists_canonical hroot
  obtain ⟨boundary, hplace, hlaterPlace, _⟩ := h.exists_canonical hboundary
  refine ProjectFinder.expandModules_congr hlocation hlaterLocation hplace hlaterPlace
    (h.listedModules_eq _) (fun path listed hfails => ?_) fun listing found _ _ hdirectory => ?_
  · obtain ⟨_, _, _, _, _, hmissing⟩ :=
      ProjectFinder.exists_listing_of_missing hfails hlocation hplace
    rw [h.isDirectory_eq, hmissing]
  · obtain ⟨spot, hspot, hlaterSpot, _⟩ := h.exists_canonical hdirectory
    exact .same ((h.isDirectory_eq _).trans hdirectory) hspot hlaterSpot
      fun _ => h.listedModules_eq _

end LosesSource

namespace ProjectFinder

/-- A file lies behind some names of a directory where a walk that starts there comes to it. -/
theorem exists_file_iff {content : ByteArray} (hlinkless : tree.IsLinkless)
    (hroot : tree.canonical path = .ok location) :
    (∃ start, tree.walkStart path = .ok start ∧ start.at? names = some (.file content)) ↔
      tree.root.at? (location ++ names) = some (.file content) := by
  rw [Entry.at?_append]
  obtain ⟨start, spot, hstart, hspot, hplace⟩ := FileTree.exists_walkStart hroot
  have hplain : start.isLink = false := by
    cases start with
    | link target =>
      exact absurd (FileTree.kindAt_eq_link_iff.mpr ⟨target, hspot⟩) (hlinkless.plain spot)
    | file content => rfl
    | directory entries => rfl
  rw [← hplace hplain, hspot, Option.bind_some]
  constructor
  · rintro ⟨other, hother, hfile⟩
    rwa [Except.ok.inj (hstart.symm.trans hother)]
  · exact fun hfile => ⟨start, hstart, hfile⟩

/-- A directory is searched as before. -/
theorem isSearched_iff (h : LosesSource finder tree later place) :
    IsSearched finder later project root names ↔ IsSearched finder tree project root names := by
  constructor
  · rintro ⟨hincluded, hvisible, hunskipped, hunlisted, hunmarked⟩
    exact ⟨hincluded, hvisible, hunskipped, hunlisted, by rwa [h.hasMarker_eq] at hunmarked⟩
  · rintro ⟨hincluded, hvisible, hunskipped, hunlisted, hunmarked⟩
    exact ⟨hincluded, hvisible, hunskipped, hunlisted, by rwa [h.hasMarker_eq]⟩

/-- The sources of a module are selected as before, but for the one that is lost. -/
theorem isSelected_iff (h : LosesSource finder tree later place)
    (hroot : tree.isDirectory root.2 = true) (hlocation : tree.canonical root.2 = .ok location) :
    IsSelected finder later project extensions root names ↔
      IsSelected finder tree project extensions root names ∧ location ++ names ≠ place := by
  obtain ⟨found, hfound, hlaterLocation, _⟩ := h.exists_canonical hroot
  obtain rfl := Except.ok.inj (hlocation.symm.trans hfound)
  have hfile : (∃ start content, later.walkStart root.2 = .ok start ∧
        start.at? names = some (.file content)) ↔
      (∃ start content, tree.walkStart root.2 = .ok start ∧
        start.at? names = some (.file content)) ∧ location ++ names ≠ place := by
    rw [exists_comm, exists_comm (α := Entry)]
    simp only [exists_file_iff h.laterLinkless hlaterLocation, exists_file_iff h.linkless hlocation,
      h.at?_eq_file_iff, exists_and_right]
  constructor
  · rintro ⟨hisFile, hextension, hincluded, hsearched⟩
    obtain ⟨hbefore, hne⟩ := hfile.mp hisFile
    exact ⟨⟨hbefore, hextension, hincluded, fun front hfront hnil hproper =>
      (isSearched_iff h).mp (hsearched front hfront hnil hproper)⟩, hne⟩
  · rintro ⟨⟨hisFile, hextension, hincluded, hsearched⟩, hne⟩
    exact ⟨hfile.mpr ⟨hisFile, hne⟩, hextension, hincluded, fun front hfront hnil hproper =>
      (isSearched_iff h).mpr (hsearched front hfront hnil hproper)⟩

/-- The sources of a project are the ones it had, but for the one that is lost. -/
theorem units_eq_filter {units : List AnalysisUnit} (h : LosesSource finder tree later place)
    (hroots : ∀ root ∈ project.moduleRoots, tree.isDirectory root.2 = true)
    (hunits : finder.units tree project (.sources extensions) = .ok units) :
    finder.units later project (.sources extensions) =
      .ok (units.filter fun unit => tree.canonical unit.path ≠ .ok place) := by
  have hlocations : ∀ root ∈ project.moduleRoots, ∃ location,
      tree.canonical root.2 = .ok location ∧ later.canonical root.2 = .ok location :=
    fun root hroot => (h.exists_canonical (hroots root hroot)).imp fun _ hplace =>
      ⟨hplace.1, hplace.2.1⟩
  obtain ⟨found, hfound, hlisted⟩ := exists_sources h.sound
    (fun root hroot => (hlocations root hroot).imp fun _ hplace => hplace.1) finder extensions
  obtain ⟨kept, hkept, hlaterListed⟩ := exists_sources h.laterSound
    (fun root hroot => (hlocations root hroot).imp fun _ hplace => hplace.2) finder extensions
  obtain rfl := Except.ok.inj (hlisted.symm.trans hunits)
  rw [hlaterListed, List.filter_flatMap]
  refine congrArg Except.ok (List.flatMap_congr fun root hroot => ?_)
  obtain ⟨location, hlocation, _⟩ := hlocations root hroot
  obtain ⟨hascending, hcollects⟩ := hfound root hroot
  obtain ⟨hlaterAscending, hlaterCollects⟩ := hkept root hroot
  -- both lists ascend, so that they are the same if they have the same members
  have hsame : kept root = (found root).filter fun names => location ++ names ≠ place := by
    refine List.Pairwise.eq_of_mem_iff hlaterAscending (hascending.sublist List.filter_sublist)
      fun names => ?_
    rw [hlaterCollects, collects_iff_isSelected, isSelected_iff h (hroots root hroot) hlocation,
      List.mem_filter, hcollects, collects_iff_isSelected, decide_eq_true_iff]
  rw [hsame, List.filter_map]
  refine congrArg _ (List.filter_congr fun names hnames => ?_)
  obtain ⟨hcanonical, _⟩ := ((hcollects names).mp hnames).located h.sound hlocation
  simp only [Function.comp, sourceUnit, hcanonical, ne_eq, Except.ok.injEq]

/-- A source of a project is a file with its name at the end of its path, and need not be parsed. -/
theorem of_mem_sources {units : List AnalysisUnit} {unit : AnalysisUnit}
    (hsound : tree.root.IsSound)
    (hroots : ∀ root ∈ project.moduleRoots, tree.isDirectory root.2 = true)
    (hunits : finder.units tree project (.sources extensions) = .ok units) (hunit : unit ∈ units) :
    ∃ place name, tree.canonical unit.path = .ok place ∧ tree.kindAt place = some .file ∧
      place.getLast? = some name ∧ unit.path.fileName? = some name.toList ∧
      extensionOf unit.path ∈ extensions ∧ unit.isMandatory = false := by
  have hlocations : ∀ root ∈ project.moduleRoots, ∃ location,
      tree.canonical root.2 = .ok location ∧ tree.isDirectoryAt location = true :=
    fun root hroot => FileTree.location_of_isDirectory (hroots root hroot)
  obtain ⟨found, hfound, hlisted⟩ := exists_sources hsound
    (fun root hroot => (hlocations root hroot).imp fun _ hplace => hplace.1) finder extensions
  obtain rfl := Except.ok.inj (hlisted.symm.trans hunits)
  obtain ⟨root, hroot, hunit⟩ := List.mem_flatMap.mp hunit
  obtain ⟨names, hnames, rfl⟩ := List.mem_map.mp hunit
  obtain ⟨location, hlocation, hdirectory⟩ := hlocations root hroot
  have hcollects := ((hfound root hroot).2 names).mp hnames
  obtain ⟨hcanonical, content, hfile⟩ := hcollects.located hsound hlocation
  have hextension : extensionOf (root.2.joins names) ∈ extensions := by
    obtain ⟨_, _, _, _, _, hextension⟩ := hcollects
    exact List.contains_iff_mem.mp hextension
  have hne : names ≠ [] := by
    rintro rfl
    rw [List.append_nil] at hfile
    rw [FileTree.isDirectoryAt, hfile] at hdirectory
    cases hdirectory
  obtain ⟨name, hname⟩ := Option.ne_none_iff_exists'.mp (by simpa using hne :
    names.getLast? ≠ none)
  refine ⟨location ++ names, name, hcanonical, FileTree.kindAt_eq_file_iff.mpr ⟨content, hfile⟩,
    ?_, ?_, hextension, rfl⟩
  · rw [List.getLast?_append_of_ne_nil _ hne, hname]
  · refine Path.fileName?_joins _ (fun other hother => ?_) hname
    exact ((hsound.at? hfile).2 other (List.mem_append_right _ hother)).isPlainName

/-- A source in another language than that of scripts has not the name of a script. -/
theorem not_script_of_fileName? {name script : String} (hname : path.fileName? = some name.toList)
    (hkotlin : extensionOf path ≠ "kts") (hgroovy : extensionOf path ≠ "gradle")
    (hscript : script ∈ Gradle.settingsScripts ++ Gradle.buildScripts) : name ≠ script := by
  have hscripts : ∀ script ∈ Gradle.settingsScripts ++ Gradle.buildScripts,
      (⟨script⟩ : Path).fileName? = some script.toList ∧
        (extensionOf ⟨script⟩ = "kts" ∨ extensionOf ⟨script⟩ = "gradle") := by
    decide
  obtain ⟨hlast, hextension⟩ := hscripts script hscript
  rintro rfl
  rw [extensionOf, ← Path.extension?_congr (hname.trans hlast.symm), ← extensionOf] at hextension
  exact hextension.elim hkotlin hgroovy

end ProjectFinder

end CorpusFacts
