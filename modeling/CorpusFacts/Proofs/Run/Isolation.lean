import CorpusFacts.Proofs.Project.Rediscovery
import CorpusFacts.Proofs.Project.Rereading
import CorpusFacts.Proofs.Run.Additions

/-!
# Isolation of projects

In a batch each project comes to what it would come to if it were executed alone, whatever the files
of the other projects hold: it looks at its own directory only, and the projects before it add
nothing but directories around their output files and these files. There is one exception. A module
may be listed by a path that leads out of the project, and whether its directory exists is seen
before the module is found to lie outside. So a path through a directory that is yet to be made for
an output file tells whether an earlier project has succeeded.
-/

namespace CorpusFacts

variable {tree other later : FileTree} {corpus : Path} {mode : RunMode}

namespace FileTree

/-- Two trees differ in nothing but the contents of files in some directories. -/
structure DiffersWithin (tree other : FileTree) (directories : List (List String)) : Prop where
  /-- The working directory is the same. -/
  working : other.working = tree.working
  /-- The same kinds of entries lie everywhere. -/
  kinds : ∀ location, other.kindAt location = tree.kindAt location
  /-- Outside of the directories everything is seen alike. -/
  faces : ∀ location, (∀ directory ∈ directories, ¬ directory <+: location) →
    other.faceAt location = tree.faceAt location

end FileTree

namespace Executor

variable {π ρ : Type} {executor : Executor π ρ} {extraction : Extraction π ρ} {config : RunConfig}
  {project : Project} {before after : List Project}

/-- An executor runs over a batch of projects: it is configured without a limit of time, with plain
names for markers; there are no links; and its output files lie outside the corpus. -/
structure RunsBatch (extraction : Extraction π ρ) (config : RunConfig) (executor : Executor π ρ)
    (tree : FileTree) (corpus : Path) (mode : RunMode) : Prop where
  /-- The executor is that of the extraction under the configuration. -/
  configured : IsConfigured extraction config executor
  /-- The name of the extraction is plain. -/
  name : IsPlainName extraction.name
  /-- The files that the extraction looks for have plain names. -/
  scope : extraction.scope.IsPlain
  /-- The markers have plain names. -/
  markers : ∀ marker ∈ config.markers, IsPlainName marker
  /-- There is no limit of time. -/
  untimed : config.timeoutSeconds = none
  /-- The tree is sound. -/
  sound : tree.root.IsSound
  /-- The working directory is a directory. -/
  working : tree.isDirectoryAt tree.working = true
  /-- There are no links. -/
  plain : ∀ location, tree.kindAt location ≠ some .link
  /-- The corpus is a directory. -/
  directory : tree.isDirectory corpus = true
  /-- The corpus is not one project. -/
  batch : executor.finder.isSingle tree corpus mode = false
  /-- The output files lie outside the corpus. -/
  outside : ∀ project ∈ executor.projects tree corpus mode,
    ¬ tree.placeOf corpus <+: tree.placeOf (executor.naming.path project.name)
  /-- The way to the output directory leads down where directories are to be made: one that is made
  elsewhere and then left again may change how making the next one fails. -/
  down : ∀ spot ∈ tree.spotsOf executor.naming.directory,
    tree.isDirectoryAt spot = true ∨ spot <+: tree.placeOf executor.naming.directory

/-- The extractions of the program have plain names, and look for files with plain names. -/
theorem extractions_plain (languages : List Imports.ImportLanguage)
    (policy : Imports.ImportPolicy) :
    (IsPlainName (Imports.imports languages policy).name ∧
      (Imports.imports languages policy).scope.IsPlain) ∧
    (IsPlainName Gradle.dependencies.name ∧ Gradle.dependencies.scope.IsPlain) ∧
    (IsPlainName Gradle.plugins.name ∧ Gradle.plugins.scope.IsPlain) ∧
    (IsPlainName Gradle.properties.name ∧ Gradle.properties.scope.IsPlain) ∧
    (IsPlainName moduleList.name ∧ moduleList.scope.IsPlain) ∧
    (IsPlainName metrics.name ∧ metrics.scope.IsPlain) ∧
    IsPlainName tags.name ∧ tags.scope.IsPlain := by
  have himports : IsPlainName (Imports.imports languages policy).name :=
    ArtifactNaming.isPlainName_of_mem_analysisNames (List.mem_cons_self ..)
  exact ⟨⟨himports, trivial⟩, by decide, by decide, by decide, by decide, by decide, by decide⟩

/-- A project lists no module by a path that leads through a directory which is yet to be made for
an output file of one of some projects. -/
def ListsNoOutput (executor : Executor π ρ) (tree : FileTree) (projects : List Project)
    (project : Project) : Prop :=
  executor.extraction.needsModules = true →
    ∀ listing, ProjectFinder.IsListed executor.finder tree (tree.placeOf project.root)
      (executor.resolveRoot tree project).root listing →
    ∀ found, listing.module? = some found → ∀ spot ∈ tree.spotsOf found.root,
      tree.kindAt spot = none → ¬ executor.IsAround tree projects spot

/-- What a tree has in common with a later one as far as a project is concerned: its own directory,
and all else but what earlier projects have added. -/
structure Continues (executor : Executor π ρ) (tree later : FileTree) (before : List Project)
    (project : Project) : Prop where
  /-- The later tree has grown around the output files of earlier projects. -/
  grows : tree.GrowsInKind later (executor.IsAround tree before) (executor.IsOutput tree before)
  /-- The directory of the project is the same. -/
  inside : later.root.at? (tree.placeOf project.root) = tree.root.at? (tree.placeOf project.root)

namespace RunsBatch

/-- The projects are those of a batch. -/
theorem projects_eq (h : RunsBatch extraction config executor tree corpus mode) :
    executor.projects tree corpus mode = executor.projects tree corpus .batch := by
  rw [projects, projects, ProjectFinder.discover, ProjectFinder.discover,
    if_neg (by rw [h.batch]; simp), if_neg (by simp [ProjectFinder.isSingle])]

/-- A project is a directory of the corpus. -/
theorem located (h : RunsBatch extraction config executor tree corpus mode)
    (hproject : project ∈ executor.projects tree corpus mode) :
    project = .ofRoot project.name (corpus.join project.name) ∧ IsPlainName project.name ∧
      tree.placeOf project.root = tree.placeOf corpus ++ [project.name] ∧
      tree.canonical project.root = .ok (tree.placeOf project.root) := by
  rw [h.projects_eq] at hproject
  obtain ⟨name, hname, rfl⟩ := of_mem_batch hproject
  obtain ⟨location, hlocation, hplace⟩ := ProjectFinder.canonical_of_visible h.sound hname
  have hplainName := (ProjectFinder.isEntryName_of_visible h.sound hname).isPlainName
  have hrootPlace : tree.placeOf (corpus.join name) = location ++ [name] := by
    have havoids : tree.AvoidsLinks (corpus.join name) := fun spot _ => h.plain spot
    exact (havoids.of_resolve_existing (FileTree.resolve_of_canonical hplace)).1.symm
  refine ⟨rfl, hplainName, (FileTree.spotsOf_join_name tree corpus hplainName).1, ?_⟩
  change tree.canonical (corpus.join name) = .ok (tree.placeOf (corpus.join name))
  rw [hplace, hrootPlace]

/-- The way to an output file leads down where directories are to be made. -/
theorem leadsDown (h : RunsBatch extraction config executor tree corpus mode)
    (hproject : project ∈ executor.projects tree corpus mode) :
    tree.LeadsDown (executor.naming.path project.name) := by
  obtain ⟨_, _, _, hanalysis, hpattern, _⟩ := h.configured.spec
  obtain ⟨_, hname, _⟩ := h.located hproject
  exact ArtifactNaming.leadsDown_path hpattern (hanalysis ▸ h.name) hname h.down

/-- No output file lies around another one, and those at the same place have the same path. -/
theorem outputs_apart (h : RunsBatch extraction config executor tree corpus mode)
    {first second : Project} (hfirst : first ∈ executor.projects tree corpus mode)
    (hsecond : second ∈ executor.projects tree corpus mode) :
    (tree.placeOf (executor.naming.path first.name) <+:
        tree.placeOf (executor.naming.path second.name) →
      tree.placeOf (executor.naming.path first.name) =
        tree.placeOf (executor.naming.path second.name)) ∧
    (tree.placeOf (executor.naming.path first.name) =
        tree.placeOf (executor.naming.path second.name) →
      executor.naming.path first.name = executor.naming.path second.name) := by
  obtain ⟨_, _, _, hanalysis, hpattern, _⟩ := h.configured.spec
  obtain ⟨_, hfirstName, _⟩ := h.located hfirst
  obtain ⟨_, hsecondName, _⟩ := h.located hsecond
  have hname : IsPlainName executor.naming.analysis := hanalysis ▸ h.name
  refine ⟨fun hleads => hleads.eq_of_length ?_, fun hplace => ?_⟩
  · exact ArtifactNaming.length_placeOf_path hpattern hname hfirstName hsecondName
  · exact ArtifactNaming.path_eq_of_placeOf_eq hpattern hname hfirstName hsecondName hplace

/-- A tree that differs from one with a batch in the contents of files only is alike. -/
theorem isAlike (h : RunsBatch extraction config executor tree corpus mode)
    (hother : other.root.IsSound) {directories : List (List String)}
    (hdiffers : tree.DiffersWithin other directories) : tree.IsAlike other where
  working := hdiffers.working
  kinds := hdiffers.kinds
  plain := h.plain
  sound := h.sound
  otherSound := hother

/-- The other projects are projects. -/
theorem mem_of_sibling {projects : List Project}
    (hprojects : projects = before ++ project :: after) :
    project ∈ projects ∧ ∀ sibling ∈ before ++ after, sibling ∈ projects := by
  rw [hprojects]
  exact ⟨by simp, fun _ hsibling =>
    ((List.sublist_cons_self project after).append_left before).subset hsibling⟩

/-- Each project lies elsewhere. -/
theorem roots_apart (h : RunsBatch extraction config executor tree corpus mode)
    (hprojects : executor.projects tree corpus mode = before ++ project :: after) :
    ∀ sibling ∈ before ++ after, ∀ rest,
      ¬ tree.placeOf sibling.root <+: tree.placeOf project.root ++ rest := by
  have hsorted := pairwise_names_of_batch h.sound executor corpus
  rw [← h.projects_eq, hprojects] at hsorted
  obtain ⟨_, hhere, hbetween⟩ := List.pairwise_append.mp hsorted
  intro sibling hsibling rest hleads
  obtain ⟨hproject, hsiblings⟩ := mem_of_sibling hprojects
  obtain ⟨_, _, hsiblingPlace, _⟩ := h.located (hsiblings sibling hsibling)
  obtain ⟨_, _, hplace, _⟩ := h.located hproject
  have hsame : sibling.name = project.name := by
    rw [hsiblingPlace, hplace, List.append_assoc, List.prefix_append_right_inj,
      List.singleton_append, List.cons_prefix_cons] at hleads
    exact hleads.1
  rcases List.mem_append.mp hsibling with hmem | hmem
  · have hlt := hbetween sibling hmem project (List.mem_cons_self ..)
    rw [hsame] at hlt
    exact lt_irrefl _ hlt
  · have hlt := (List.pairwise_cons.mp hhere).1 sibling hmem
    rw [hsame] at hlt
    exact lt_irrefl _ hlt

/-- Earlier projects add to an alike tree nothing but directories around their output files and
these files. -/
theorem growsTo_before [Record ρ] (h : RunsBatch extraction config executor tree corpus mode)
    (hbefore : ∀ sibling ∈ before, sibling ∈ executor.projects tree corpus mode)
    (halike : tree.IsAlike other) :
    other.GrowsTo (executor.executeAll other before).1 (executor.IsAround tree before)
      (executor.IsOutput tree before) := by
  have hplaces : ∀ path, other.placeOf path = tree.placeOf path := halike.growsInKind.placeOf
  refine (growsTo_executeAll_around executor before
    (fun location => halike.growsInKind.kindAt_ne_link (h.plain location)) fun sibling hsibling =>
      (h.leadsDown (hbefore sibling hsibling)).of_growsInKind halike.growsInKind).mono ?_ ?_
  · intro location
    simp only [IsAround, hplaces, imp_self]
  · intro location
    simp only [IsOutput, hplaces, imp_self]

/-- What is seen of the directory of a project is the same in a tree that differs in other projects
only, after earlier projects were executed. -/
theorem continues [Record ρ] (h : RunsBatch extraction config executor tree corpus mode)
    (hprojects : executor.projects tree corpus mode = before ++ project :: after)
    (hother : other.root.IsSound)
    (hdiffers : tree.DiffersWithin other
      ((before ++ after).map fun sibling => tree.placeOf sibling.root)) :
    executor.Continues tree (executor.executeAll other before).1 before project := by
  obtain ⟨hproject, hsiblings⟩ := mem_of_sibling hprojects
  have halike := h.isAlike hother hdiffers
  have hbefore : ∀ sibling ∈ before, sibling ∈ executor.projects tree corpus mode :=
    fun sibling hsibling => hsiblings sibling (List.mem_append_left _ hsibling)
  have hgrows := h.growsTo_before hbefore halike
  constructor
  · refine ⟨hgrows.working.trans halike.working, fun location => ?_⟩
    rw [← halike.kinds location]
    exact hgrows.inKind.kinds location
  · refine FileTree.at?_eq_of_faces h.sound (executeAll_isSound hother before) fun rest => ?_
    have hfaces : other.faceAt (tree.placeOf project.root ++ rest) =
        tree.faceAt (tree.placeOf project.root ++ rest) := by
      refine hdiffers.faces _ fun place hplace => ?_
      obtain ⟨sibling, hsibling, rfl⟩ := List.mem_map.mp hplace
      exact h.roots_apart hprojects sibling hsibling rest
    obtain ⟨_, _, hplace, _⟩ := h.located hproject
    have hcorpus : tree.placeOf corpus <+: tree.placeOf project.root ++ rest := by
      rw [hplace, List.append_assoc]
      exact List.prefix_append _ _
    rw [← hfaces]
    -- what was added lies outside of the corpus
    rcases hgrows.faces (tree.placeOf project.root ++ rest) with
      hkept | ⟨hmade, _⟩ | ⟨hwritten, _⟩
    · exact hkept
    · obtain ⟨sibling, hsibling, hbelow, _⟩ := hmade
      exact absurd (hcorpus.trans hbelow) (h.outside sibling (hbefore sibling hsibling))
    · obtain ⟨sibling, hsibling, hhere, _⟩ := hwritten
      rw [hhere] at hcorpus
      exact absurd hcorpus (h.outside sibling (hbefore sibling hsibling))

/-- A project is analyzed in a later tree as in the tree. -/
theorem analyzeInTime_eq (h : RunsBatch extraction config executor tree corpus mode)
    (hproject : project ∈ executor.projects tree corpus mode)
    (hlists : executor.ListsNoOutput tree before project)
    (hlater : executor.Continues tree later before project) :
    executor.analyzeInTime later project = executor.analyzeInTime tree project := by
  obtain ⟨hextraction, hmarkers, hlister, _, _, htimeout, hresolver⟩ := h.configured.spec
  obtain ⟨hshape, _, _, hcanonical⟩ := h.located hproject
  have hkeeps : tree.Keeps later (tree.placeOf project.root) := {
    working := hlater.grows.working
    inside := hlater.inside
    directories := fun _ hdirectory => hlater.grows.isDirectoryAt hdirectory
    plain := h.plain
    laterPlain := fun location => hlater.grows.kindAt_ne_link (h.plain location) }
  have hreads : executor.ReadsInside tree later (tree.placeOf project.root) := {
    sound := h.sound
    keeps := hkeeps
    resolver := hresolver
    lister := hlister
    markers := hmarkers ▸ h.markers
    scope := hextraction ▸ h.scope }
  have hnew : executor.extraction.needsModules = true →
      ProjectFinder.ListsNothingNew executor.finder tree later (tree.placeOf project.root)
        (executor.resolveRoot tree project).root := by
    intro hneeds listing hlisting found hmodule spot hspot hdirectory
    rw [FileTree.isDirectoryAt_iff_kindAt] at hdirectory ⊢
    rcases hlater.grows.kinds spot with hsame | ⟨hmade, hnone, _⟩ | ⟨_, _, hnew⟩
    · rwa [← hsame]
    · exact absurd hmade (hlists hneeds listing hlisting found hmodule spot hspot hnone)
    · rw [hnew] at hdirectory
      cases hdirectory
  rw [analyzeInTime, analyzeInTime, htimeout, h.untimed]
  rw [hshape] at hkeeps hreads hcanonical hnew ⊢
  refine hreads.analyze_eq hcanonical fun path listed hfails => ?_
  rcases analyze_error_cases h.sound hresolver hcanonical hfails with hfiles |
    ⟨_, _, hsame, hmissing, hneeds, listing, found, hlisting, hmodule, rfl⟩
  · cases hfiles
  · cases hsame
    rw [(hnew hneeds).isDirectory_eq hkeeps hlisting hmodule, hmissing]

/-- A project comes to the same in a later tree as in the tree. -/
theorem executeProject_eq [Record ρ] (h : RunsBatch extraction config executor tree corpus mode)
    (hprojects : executor.projects tree corpus mode = before ++ project :: after)
    (hlists : executor.ListsNoOutput tree before project)
    (hlater : executor.Continues tree later before project) :
    (executor.executeProject later project).2 = (executor.executeProject tree project).2 := by
  obtain ⟨hproject, hsiblings⟩ := mem_of_sibling hprojects
  have hmem : ∀ sibling ∈ before, sibling ∈ executor.projects tree corpus mode :=
    fun sibling hsibling => hsiblings sibling (List.mem_append_left _ hsibling)
  have hdown := h.leadsDown hproject
  have hwrites := fun text => hlater.grows.writeText_eq h.plain
    (FileTree.isDirectoryAt_startOf h.working _) hdown
    (by
      rintro ⟨sibling, hsibling, hbelow, hne⟩
      exact hne ((h.outputs_apart hproject (hmem sibling hsibling)).1 hbelow))
    (by
      rintro spot hspot hnone ⟨sibling, hsibling, rfl, _⟩
      obtain ⟨hbelow, hne⟩ := (hdown _ hspot).resolve_left fun hdirectory => by
        rw [FileTree.isDirectoryAt_iff_kindAt, hnone] at hdirectory
        cases hdirectory
      exact hne ((h.outputs_apart (hmem sibling hsibling) hproject).1 hbelow))
    (by
      rintro ⟨sibling, hsibling, hplace, hname⟩
      rwa [(h.outputs_apart hproject (hmem sibling hsibling)).2 hplace]) text
  have hsame := h.analyzeInTime_eq hproject hlists hlater
  cases hanalyzed : executor.analyzeInTime tree project with
  | error error =>
    rw [executeProject_of_error hanalyzed, executeProject_of_error (hsame.trans hanalyzed)]
  | ok facts =>
    rw [executeProject_of_ok hanalyzed, executeProject_of_ok (hsame.trans hanalyzed), hwrites]

/-- Projects that do not share the output file of a project have theirs elsewhere. -/
theorem outputs_elsewhere (h : RunsBatch extraction config executor tree corpus mode)
    (hprojects : executor.projects tree corpus mode = before ++ project :: after)
    (hunshared : ∀ sibling ∈ before ++ after,
      (executor.naming.path project.name).sameAs (executor.naming.path sibling.name) = false) :
    ∀ sibling ∈ before ++ after, tree.placeOf (executor.naming.path project.name) ≠
      tree.placeOf (executor.naming.path sibling.name) := by
  intro sibling hsibling hplace
  obtain ⟨hproject, hsiblings⟩ := mem_of_sibling hprojects
  have hne := hunshared sibling hsibling
  rw [(h.outputs_apart hproject (hsiblings sibling hsibling)).2 hplace, Path.sameAs,
    beq_self_eq_true] at hne
  cases hne

/-- In a tree that differs in other projects only, there is the same at the place of an output
file. -/
theorem file_output_iff (h : RunsBatch extraction config executor tree corpus mode)
    (hprojects : executor.projects tree corpus mode = before ++ project :: after)
    (hdiffers : tree.DiffersWithin other
      ((before ++ after).map fun sibling => tree.placeOf sibling.root)) (content : ByteArray) :
    other.root.at? (tree.placeOf (executor.naming.path project.name)) = some (.file content) ↔
      tree.root.at? (tree.placeOf (executor.naming.path project.name)) = some (.file content) := by
  obtain ⟨hproject, hsiblings⟩ := mem_of_sibling hprojects
  rw [FileTree.at?_eq_file_iff, FileTree.at?_eq_file_iff, hdiffers.faces]
  intro place hplace hbelow
  obtain ⟨sibling, hsibling, rfl⟩ := List.mem_map.mp hplace
  obtain ⟨_, _, hroot, _⟩ := h.located (hsiblings sibling hsibling)
  refine h.outside project hproject (List.IsPrefix.trans ?_ hbelow)
  rw [hroot]
  exact List.prefix_append _ _

/-- In a tree that differs in other projects only, the output file of a project that fails and that
no other one shares holds what it held before. -/
theorem read_iff_of_failed [Record ρ]
    (h : RunsBatch extraction config executor tree corpus mode)
    (hprojects : executor.projects tree corpus mode = before ++ project :: after)
    (hother : other.root.IsSound)
    (hdiffers : tree.DiffersWithin other
      ((before ++ after).map fun sibling => tree.placeOf sibling.root))
    (hunshared : ∀ sibling ∈ before ++ after,
      (executor.naming.path project.name).sameAs (executor.naming.path sibling.name) = false)
    (hfailed : (executor.executeAll other before).1.GrowsTo
      (executor.executeProject (executor.executeAll other before).1 project).1 (fun _ => True)
      fun _ => False) (content : ByteArray) :
    (executor.executeAll other (before ++ project :: after)).1.read
        (executor.naming.path project.name) = .ok content ↔
      tree.read (executor.naming.path project.name) = .ok content := by
  obtain ⟨hproject, _⟩ := mem_of_sibling hprojects
  have hdown := h.leadsDown hproject
  have hsame := (h.isAlike hother hdiffers).growsInKind
  have hotherLinks : ∀ location, other.kindAt location ≠ some .link :=
    fun location => hsame.kindAt_ne_link (h.plain location)
  have hlater := (h.continues hprojects hother hdiffers).grows
  have hapart := h.outputs_elsewhere hprojects hunshared
  obtain ⟨_, hall⟩ := executeAll_split executor other before project after rfl rfl
  -- neither the project nor any other one writes the file
  have hfinal : ∀ content, (executor.executeAll other (before ++ project :: after)).1.root.at?
      (other.placeOf (executor.naming.path project.name)) = some (.file content) ↔
        other.root.at? (other.placeOf (executor.naming.path project.name)) =
          some (.file content) := by
    intro content
    rw [hall, hsame.placeOf, file_executeAll_iff, hfailed.file_iff id, file_executeAll_iff]
    · exact fun _ _ spot _ => hotherLinks spot
    · intro sibling hsibling
      rw [hsame.placeOf]
      exact hapart sibling (List.mem_append_left _ hsibling)
    · exact fun _ _ spot _ => hfailed.kindAt_ne_link (hlater.kindAt_ne_link (h.plain spot))
    · intro sibling hsibling
      rw [hfailed.placeOf, hlater.placeOf]
      exact hapart sibling (List.mem_append_right _ hsibling)
  have hgrown := growsTo_executeAll executor (before ++ project :: after)
    fun _ _ spot _ => hotherLinks spot
  rw [hgrown.inKind.read_iff hotherLinks (hdown.of_growsInKind hsame) hfinal,
    hsame.read_iff h.plain hdown (h.file_output_iff hprojects hdiffers)]

/-- In a tree that differs in other projects only, the output file of a project that no other one
shares holds what it holds after the project is executed alone. -/
theorem read_iff [Record ρ] (h : RunsBatch extraction config executor tree corpus mode)
    (hprojects : executor.projects tree corpus mode = before ++ project :: after)
    (hlists : executor.ListsNoOutput tree before project) (hother : other.root.IsSound)
    (hdiffers : tree.DiffersWithin other
      ((before ++ after).map fun sibling => tree.placeOf sibling.root))
    (hunshared : ∀ sibling ∈ before ++ after,
      (executor.naming.path project.name).sameAs (executor.naming.path sibling.name) = false)
    (content : ByteArray) :
    (executor.executeAll other (before ++ project :: after)).1.read
        (executor.naming.path project.name) = .ok content ↔
      (executor.executeProject tree project).1.read (executor.naming.path project.name) =
        .ok content := by
  obtain ⟨hproject, _⟩ := mem_of_sibling hprojects
  have hlater := h.continues hprojects hother hdiffers
  have hplain : ∀ path, tree.AvoidsLinks path := fun _ spot _ => h.plain spot
  have hcurrentPlain : ∀ path, (executor.executeAll other before).1.AvoidsLinks path :=
    fun _ spot _ => hlater.grows.kindAt_ne_link (h.plain spot)
  have houtcomes := h.executeProject_eq hprojects hlists hlater
  obtain ⟨verdict, houtcome, hturn⟩ := executeProject_turn executor project (hcurrentPlain _)
  obtain ⟨aloneVerdict, haloneOutcome, haloneTurn⟩ :=
    executeProject_turn executor project (hplain _)
  obtain rfl : verdict = aloneVerdict := by
    rw [houtcome, haloneOutcome] at houtcomes
    exact (Outcome.mk.inj houtcomes).2.2
  cases verdict with
  | failed error =>
    cases hturn with
    | failed hgrows =>
      cases haloneTurn with
      | failed haloneGrows =>
        rw [h.read_iff_of_failed hprojects hother hdiffers hunshared hgrows,
          haloneGrows.inKind.read_iff h.plain (h.leadsDown hproject) (haloneGrows.file_iff id)]
  | succeeded artifact facts units warnings =>
    -- it is written both times, with the same records
    obtain ⟨result, hresult, _, _, _, _, _, hread⟩ := hturn.of_succeeded (hcurrentPlain _)
      (fun sibling _ => hcurrentPlain (executor.naming.path sibling.name))
      fun sibling (hsibling : sibling ∈ after) => by
        rw [hlater.grows.placeOf, hlater.grows.placeOf]
        exact h.outputs_elsewhere hprojects hunshared sibling (List.mem_append_right _ hsibling)
    obtain ⟨aloneResult, haloneResult, rfl, _, _, _, _, haloneRead⟩ :=
      haloneTurn.of_succeeded (hplain _)
        (fun sibling _ => hplain (executor.naming.path sibling.name))
        fun sibling (hsibling : sibling ∈ []) => by cases hsibling
    obtain rfl : result = aloneResult := by
      rw [h.analyzeInTime_eq hproject hlists hlater, haloneResult] at hresult
      exact (Except.ok.inj hresult).symm
    rw [executeAll] at haloneRead
    rw [(executeAll_split executor other before project after rfl rfl).2, hread, haloneRead]

end RunsBatch

/-- A corpus of two projects with settings scripts, the second of which has a directory for a
module. -/
def twoProjects (first second : String) : FileTree :=
  ⟨.directory [("c", .directory [
      ("a", .directory [("settings.gradle", .file first.toUTF8)]),
      ("b", .directory [("m", .directory []),
        ("settings.gradle", .file second.toUTF8)])])], []⟩

end Executor

end CorpusFacts
