import CorpusFacts.Proofs.Output.Repeating
import CorpusFacts.Proofs.Run.Isolation
import CorpusFacts.Proofs.Run.Frame

/-!
# Runs over again

A run that is done again, on the files that it left, comes to the same if what it told of its
failures is still true. There are three things that a run tells and then may change itself: that a
module is missing, that a directory cannot be made because something is there, and that a file
cannot be written because nothing is there.
-/

namespace CorpusFacts

open FileTree (Keeps LeadsInto)

variable {tree current later last before after : FileTree} {corpus : Path} {mode : RunMode}
  {inside : List String}

/-- What is still true of an error, in a later tree, if the same project comes to it again. -/
def ProjectError.IsTrueOf (tree : FileTree) : ProjectError → Prop
  | .missingModule path _ => tree.isDirectory path = false
  | .output error => error.IsTrueOf tree
  | _ => True

/-- What an outcome tells of a failure is still true. -/
def Outcome.IsTrueOf (tree : FileTree) (outcome : Outcome) : Prop :=
  ∀ error, outcome.verdict = .failed error → error.IsTrueOf tree

/-- What lies in the files of a project is true of every tree. -/
theorem ProjectError.LiesInFiles.isTrueOf {error : ProjectError} (h : error.LiesInFiles)
    (tree : FileTree) : error.IsTrueOf tree := by
  cases h <;> trivial

namespace FileTree

/-- What is told of an error is true of both of two trees with the same kinds of entries, or of
neither. -/
theorem AgreesOn.isTrueOf_iff (h : current.AgreesOn later fun _ => True) (error : ProjectError) :
    error.IsTrueOf later ↔ error.IsTrueOf current := by
  have hresolve (path : Path) (followLast : Bool) :
      later.resolve path followLast = current.resolve path followLast :=
    h.resolve_eq (fun _ _ => trivial) followLast
  cases error with
  | missingModule path listed =>
    rw [ProjectError.IsTrueOf, ProjectError.IsTrueOf, h.isDirectory_eq fun _ _ => trivial]
  | output error =>
    rw [ProjectError.IsTrueOf, ProjectError.IsTrueOf]
    cases error with
    | createDirectory path failure =>
      cases failure with
      | alreadyExists =>
        rw [OutputError.IsTrueOf, OutputError.IsTrueOf, exists?_iff, exists?_iff, canonical,
          canonical, hresolve]
      | _ => exact Iff.rfl
    | write path failure =>
      cases failure with
      | notFound =>
        rw [OutputError.IsTrueOf, OutputError.IsTrueOf, h.writtenPlace_eq fun _ _ => trivial]
      | _ => exact Iff.rfl
  | _ => exact Iff.rfl

/-- Writing a text makes the tree grow on the way to its file. -/
theorem IsLinkless.growsTo_writeText (h : tree.IsLinkless) (path : Path) (text : String) :
    tree.GrowsTo (writeText tree path text).1 (· ∈ tree.spotsOf path) (· ∈ tree.spotsOf path) := by
  have hparent : tree.GrowsTo (makeParent tree path).1 (· ∈ tree.spotsOf path)
      (· ∈ tree.spotsOf path) := (growsTo_makeParent_way h.plain path).mono
    (fun spot hspot => (mem_spotsOf_iff tree path spot).mpr (Or.inl hspot)) fun _ h => h.elim
  rcases writeText_fst tree path text with hsame | hwrite
  · rwa [hsame]
  · obtain ⟨hgrows, _⟩ := (hparent.avoidsLinks (h.avoidsLinks path)).growsTo_of_write hwrite
    refine hparent.trans (hgrows.mono (fun _ h => h.elim) ?_)
    rintro spot rfl
    rw [hparent.placeOf]
    exact placeFrom_mem_spotsFrom _ _

/-- A tree that has been changed outside of a directory only, in which there were no links. -/
structure Spares (tree current : FileTree) (inside : List String) : Prop where
  /-- The directory is kept. -/
  keeps : tree.Keeps current inside
  /-- The tree is sound. -/
  sound : current.root.IsSound

/-- A tree spares all of itself. -/
theorem Spares.refl (hplain : ∀ location, tree.kindAt location ≠ some .link)
    (hsound : tree.root.IsSound) (inside : List String) : tree.Spares tree inside where
  keeps := ⟨rfl, rfl, fun _ h => h, hplain, hplain⟩
  sound := hsound

namespace Spares

/-- There are no links later. -/
theorem isLinkless (h : tree.Spares current inside)
    (hworking : tree.isDirectoryAt tree.working = true) : current.IsLinkless where
  plain := h.keeps.laterPlain
  working := by
    rw [h.keeps.working]
    exact h.keeps.directories _ hworking

/-- A directory is spared by what grows where nothing but directories is inside of it. -/
theorem of_growsTo {made written : List String → Prop} (h : tree.Spares current inside)
    (hgrows : current.GrowsTo later made written) (hsound : later.root.IsSound)
    (houtside : ∀ location, made location ∨ written location → inside <+: location →
      tree.isDirectoryAt location = true) : tree.Spares later inside where
  keeps := {
    working := hgrows.working.trans h.keeps.working
    inside := by
      rw [← h.keeps.inside]
      refine at?_eq_of_faces h.sound hsound fun rest => ?_
      have hdirectory := fun hhere => isDirectoryAt_iff_faceAt.mp
        (h.keeps.directories _ (houtside (inside ++ rest) hhere (List.prefix_append _ _)))
      rcases hgrows.faces (inside ++ rest) with hsame | ⟨hmade, hnone, _⟩ | ⟨hwritten, _, hold⟩
      · exact hsame
      · rw [hdirectory (Or.inl hmade)] at hnone
        cases hnone
      · rw [hdirectory (Or.inr hwritten)] at hold
        simp at hold
    directories := fun location hlocation =>
      hgrows.isDirectoryAt (h.keeps.directories location hlocation)
    plain := h.keeps.plain
    laterPlain := fun location => hgrows.kindAt_ne_link (h.keeps.laterPlain location) }
  sound := hsound

end Spares

/-- Something is done again in a later tree: where a file was written it is written again, with the
same bytes, and all else is as it was. -/
structure Rewrites (before after later last : FileTree) : Prop where
  /-- The working directory is the same. -/
  working : last.working = later.working
  /-- Each location has the file that was written there, or what it had; and then no file was
  written over. -/
  faces : ∀ location,
    (∃ content, last.faceAt location = some (.file content) ∧
      after.faceAt location = some (.file content)) ∨
    (last.faceAt location = later.faceAt location ∧ ∀ content,
      before.faceAt location = some (.file content) → after.faceAt location = some (.file content))

namespace Rewrites

/-- Where no file was written, none is written again. -/
theorem of_unwritten (h : before.GrowsTo after (fun _ => True) fun _ => False)
    (later : FileTree) : Rewrites before after later later where
  working := rfl
  faces location := Or.inr ⟨rfl, fun content hfile => by
    rwa [← at?_eq_file_iff, h.file_iff id, at?_eq_file_iff]⟩

/-- Where a file was written, it is written again. -/
theorem of_written {place : List String} {content : ByteArray}
    (h : before.GrowsTo after (fun _ => True) (· = place))
    (hfile : after.root.at? place = some (.file content)) (hworking : last.working = later.working)
    (hfaces : ∀ location, last.faceAt location =
      if location = place then some (.file content) else later.faceAt location) :
    Rewrites before after later last where
  working := hworking
  faces location := by
    rw [hfaces]
    by_cases hplace : location = place
    · rw [if_pos hplace, hplace]
      exact Or.inl ⟨content, rfl, at?_eq_file_iff.mp hfile⟩
    · rw [if_neg hplace]
      refine Or.inr ⟨rfl, fun content hold => ?_⟩
      rwa [← at?_eq_file_iff, h.file_iff hplace, at?_eq_file_iff]

/-- One thing is done again and then another. -/
theorem trans {mid next : FileTree} (h : Rewrites before mid later next)
    (hnext : Rewrites mid after next last) : Rewrites before after later last where
  working := hnext.working.trans h.working
  faces location := by
    rcases hnext.faces location with hwritten | ⟨hkept, hover⟩
    · exact Or.inl hwritten
    · rcases h.faces location with ⟨content, hfile, hmid⟩ | ⟨hsame, hbefore⟩
      · exact Or.inl ⟨content, hkept.trans hfile, hover content hmid⟩
      · exact Or.inr ⟨hkept.trans hsame, fun content hfile => hover content (hbefore content hfile)⟩

/-- Kinds of entries are the same after something is done again. -/
theorem agreesOn (h : Rewrites before after later last)
    (hgrows : after.GrowsInKind later (fun _ => True) fun _ => True)
    (hagrees : current.AgreesOn later fun _ => True) : current.AgreesOn last fun _ => True := by
  have hsame : ∀ location, last.kindAt location = later.kindAt location := by
    intro location
    rcases h.faces location with ⟨content, hfile, hafter⟩ | ⟨hkept, _⟩
    · rw [hgrows.kindAt_eq (by simp [kindAt, hafter]), kindAt, kindAt, hfile, hafter]
    · rw [kindAt, kindAt, hkept]
  exact {
    working := h.working.trans hagrees.working
    kinds := fun location _ => (hagrees.kinds location trivial).trans (hsame location).symm
    plain := hagrees.plain
    laterPlain := fun location => by rw [hsame]; exact hagrees.laterPlain location }

/-- What is done again in the tree it came to leaves that tree as it is. -/
theorem eq (h : Rewrites before later later last) (hsound : later.root.IsSound)
    (hlast : last.root.IsSound) : last = later := by
  have hroot : last.root = later.root := hlast.eq_of_faces hsound fun location => by
    rcases h.faces location with ⟨content, hfile, hlater⟩ | ⟨hkept, _⟩
    · exact hfile.trans hlater.symm
    · exact hkept
  have hworking := h.working
  cases last
  cases later
  simp_all

end Rewrites

end FileTree

namespace Executor

variable {π ρ : Type} {executor : Executor π ρ} {extraction : Extraction π ρ} {config : RunConfig}
  {project : Project} {projects : List Project}

/-- The projects of a corpus are the same in a later tree that keeps the corpus. -/
theorem projects_eq_of_keeps (h : tree.Keeps later inside) (hsound : tree.root.IsSound)
    (hcorpus : tree.LeadsInto inside corpus)
    (hmarkers : ∀ marker ∈ executor.finder.markers, IsPlainName marker)
    (hresolver : executor.resolver = none ∨ executor.resolver = some buildRoot?) (mode : RunMode) :
    executor.projects later corpus mode = executor.projects tree corpus mode := by
  have hmarker : ∀ {directory : Path}, tree.LeadsInto inside directory →
      executor.finder.hasMarker later directory = executor.finder.hasMarker tree directory :=
    fun hdirectory => any_isFile_eq h hdirectory hmarkers
  have haccept : ∀ {directory : Path}, tree.LeadsInto inside directory →
      (executor.resolver.bind fun resolver => resolver later directory) =
        executor.resolver.bind fun resolver => resolver tree directory := by
    intro directory hdirectory
    rcases hresolver with hnone | hsome
    · rw [hnone]
      rfl
    · rw [hsome, Option.bind_some, Option.bind_some, buildRoot?_eq h hsound hdirectory]
  have hsingle : executor.finder.isSingle later corpus mode =
      executor.finder.isSingle tree corpus mode := by
    cases mode with
    | auto => exact hmarker hcorpus
    | _ => rfl
  have hnamed : Project.ofDirectory later corpus = Project.ofDirectory tree corpus := by
    rw [Project.ofDirectory, Project.ofDirectory, directoryName, directoryName,
      h.canonical_eq hcorpus]
  have hvisible : ProjectFinder.visibleDirectories later corpus =
      ProjectFinder.visibleDirectories tree corpus := by
    rw [ProjectFinder.visibleDirectories, ProjectFinder.visibleDirectories, (h.showsSame hcorpus).entries_eq]
  rw [projects, projects, ProjectFinder.discover, ProjectFinder.discover, hsingle, hnamed, hvisible]
  refine ite_congr rfl (fun _ => rfl) fun _ => List.filterMap_congr fun name hname => ?_
  have hdirectory : tree.LeadsInto inside (corpus.join name) :=
    hcorpus.join (ProjectFinder.isEntryName_of_visible hsound hname).isPlainName
  simp only [hmarker hdirectory, haccept hdirectory]

/-- An executor runs over a corpus aside from its output files: it is configured with one job and
without a limit of time, with plain names for markers; there are no links; and the ways to its
output files enter no directory of the corpus that is yet to be made, and end outside of it. -/
structure RunsAside (extraction : Extraction π ρ) (config : RunConfig) (executor : Executor π ρ)
    (tree : FileTree) (corpus : Path) (mode : RunMode) : Prop where
  /-- The executor is that of the extraction under the configuration. -/
  configured : IsConfigured extraction config executor
  /-- There is one job. -/
  jobs : config.jobs = some 1
  /-- The files that the extraction looks for have plain names. -/
  scope : extraction.scope.IsPlain
  /-- The markers have plain names. -/
  markers : ∀ marker ∈ config.markers, IsPlainName marker
  /-- There is no limit of time. -/
  untimed : config.timeoutSeconds = none
  /-- The tree is sound. -/
  sound : tree.root.IsSound
  /-- The working directory is a directory. -/
  working : tree.isDirectoryAt tree.working = true
  /-- There are no links. -/
  plain : ∀ location, tree.kindAt location ≠ some .link
  /-- Wherever the way to an output file comes into the corpus there is a directory. -/
  outside : ∀ project ∈ executor.projects tree corpus mode,
    ∀ spot ∈ tree.spotsOf (executor.naming.path project.name), tree.placeOf corpus <+: spot →
      tree.isDirectoryAt spot = true

/-- The ways to output files stay out of a corpus that lies apart from the output directory, if the
way to that directory does. -/
theorem outside_of_apart (hconfigured : IsConfigured extraction config executor)
    (hname : IsPlainName extraction.name) (hsound : tree.root.IsSound)
    (hcorpus : tree.isDirectory corpus = true) (havoids : tree.AvoidsLinks corpus)
    (hbelow : ¬ tree.placeOf executor.naming.directory <+: tree.placeOf corpus)
    (hway : ∀ spot ∈ tree.spotsOf executor.naming.directory, ¬ tree.placeOf corpus <+: spot)
    (hproject : project ∈ executor.projects tree corpus mode) :
    ∀ spot ∈ tree.spotsOf (executor.naming.path project.name), ¬ tree.placeOf corpus <+: spot := by
  obtain ⟨_, _, _, hanalysis, hpattern, _⟩ := hconfigured.spec
  have habove := hway _ (FileTree.placeFrom_mem_spotsFrom _ _)
  have hplain : IsPlainName project.name := by
    refine isPlainName_of_mem_projects hsound hcorpus (fun hroot => habove ?_) hproject
    rw [← (havoids.of_resolve_existing (FileTree.resolve_of_canonical hroot)).1]
    exact List.nil_prefix
  intro spot hspot hinside
  rcases ArtifactNaming.of_mem_spotsOf_path hpattern (hanalysis ▸ hname) hplain hspot with
    hdirectory | hdown
  · exact hway spot hdirectory hinside
  · exact (List.prefix_or_prefix_of_prefix hinside hdown).elim habove hbelow

/-- Executing a project makes a tree without links grow on the way to its output file. -/
theorem growsTo_executeProject_way [Record ρ] (executor : Executor π ρ) (project : Project)
    (hlinkless : tree.IsLinkless) :
    tree.GrowsTo (executor.executeProject tree project).1
      (· ∈ tree.spotsOf (executor.naming.path project.name))
      (· ∈ tree.spotsOf (executor.naming.path project.name)) := by
  rcases executeProject_fst executor tree project with hsame | ⟨text, hwritten⟩
  · rw [hsame]
    exact .refl _ _ _
  · rw [hwritten]
    exact hlinkless.growsTo_writeText _ text

namespace RunsAside

/-- The corpus is spared by executing its projects. -/
theorem spares_executeProject [Record ρ]
    (h : RunsAside extraction config executor tree corpus mode)
    (hproject : project ∈ executor.projects tree corpus mode)
    (hcurrent : tree.Spares current (tree.placeOf corpus)) :
    tree.Spares (executor.executeProject current project).1 (tree.placeOf corpus) := by
  refine hcurrent.of_growsTo
    (growsTo_executeProject_way executor project (hcurrent.isLinkless h.working))
    (executeProject_isSound executor hcurrent.sound project) fun location hlocation hinside => ?_
  rw [FileTree.spotsOf_congr hcurrent.keeps.working, or_self] at hlocation
  exact h.outside project hproject location hlocation hinside

/-- A project is a directory in the corpus. -/
theorem located (h : RunsAside extraction config executor tree corpus mode)
    (hcorpus : tree.isDirectory corpus = true)
    (hproject : project ∈ executor.projects tree corpus mode) :
    project = .ofRoot project.name project.root ∧
      ∃ place, tree.canonical project.root = .ok place ∧ tree.placeOf corpus <+: place := by
  obtain ⟨location, hlocation, _⟩ := FileTree.location_of_isDirectory hcorpus
  have havoids : tree.AvoidsLinks corpus := fun spot _ => h.plain spot
  obtain ⟨rfl, _⟩ := havoids.of_resolve_existing (FileTree.resolve_of_canonical hlocation)
  rcases projects_eq executor tree corpus mode with hsingle | hbatch
  · rw [hsingle, List.mem_singleton] at hproject
    rw [hproject]
    exact ⟨rfl, _, hlocation, List.prefix_rfl⟩
  · rw [hbatch] at hproject
    obtain ⟨name, hname, rfl⟩ := of_mem_batch hproject
    obtain ⟨place, hplace, hinner⟩ := ProjectFinder.canonical_of_visible h.sound hname
    obtain rfl := Except.ok.inj (hlocation.symm.trans hplace)
    exact ⟨rfl, _, hinner, List.prefix_append _ _⟩

/-- A project cannot be analyzed for a reason that lies in its files, or because a module is
missing. -/
theorem analyzeInTime_error_cases (h : RunsAside extraction config executor tree corpus mode)
    (hcorpus : tree.isDirectory corpus = true)
    (hproject : project ∈ executor.projects tree corpus mode)
    (hcurrent : tree.Spares current (tree.placeOf corpus)) {error : ProjectError}
    (hfails : executor.analyzeInTime current project = .error error) :
    error.LiesInFiles ∨
      ∃ path listed, error = .missingModule path listed ∧ current.isDirectory path = false := by
  obtain ⟨_, _, _, _, _, htimeout, hresolver⟩ := h.configured.spec
  obtain ⟨hshape, place, hplace, hinside⟩ := h.located hcorpus hproject
  have hinto : tree.LeadsInto (tree.placeOf corpus) project.root :=
    .of_canonical (fun spot _ => h.plain spot) hplace hinside
  have huntimed : executor.timeoutSeconds = none := htimeout.trans h.untimed
  simp only [analyzeInTime, huntimed] at hfails
  rw [hshape] at hfails
  refine (analyze_error_cases hcurrent.sound hresolver
    ((hcurrent.keeps.canonical_eq hinto).trans hplace) hfails).imp_right ?_
  rintro ⟨path, listed, hmissing, hdirectory, _⟩
  exact ⟨path, listed, hmissing, hdirectory⟩

/-- A project is analyzed again as before if what was told of a failure is still true. -/
theorem analyzeInTime_iff (h : RunsAside extraction config executor tree corpus mode)
    (hcorpus : tree.isDirectory corpus = true)
    (hproject : project ∈ executor.projects tree corpus mode)
    (hcurrent : tree.Spares current (tree.placeOf corpus))
    (hlater : tree.Spares later (tree.placeOf corpus))
    (hgrows : current.GrowsInKind later (fun _ => True) fun _ => True) :
    executor.analyzeInTime later project = executor.analyzeInTime current project ↔
      ∀ error, executor.analyzeInTime current project = .error error → error.IsTrueOf later := by
  obtain ⟨hextraction, hmarkers, hlister, _, _, htimeout, hresolver⟩ := h.configured.spec
  obtain ⟨hshape, place, hplace, hinside⟩ := h.located hcorpus hproject
  have hinto : tree.LeadsInto (tree.placeOf corpus) project.root :=
    .of_canonical (fun spot _ => h.plain spot) hplace hinside
  have hcurrentPlace := (hcurrent.keeps.canonical_eq hinto).trans hplace
  have hreads : executor.ReadsInside current later place := {
    sound := hcurrent.sound
    keeps := {
      working := hgrows.working
      inside := (hlater.keeps.at?_eq hinside).trans (hcurrent.keeps.at?_eq hinside).symm
      directories := fun _ hdirectory => hgrows.isDirectoryAt hdirectory
      plain := hcurrent.keeps.laterPlain
      laterPlain := hlater.keeps.laterPlain }
    resolver := hresolver
    lister := hlister
    markers := hmarkers ▸ h.markers
    scope := hextraction ▸ h.scope }
  constructor
  · intro hsame error hfails
    rcases h.analyzeInTime_error_cases hcorpus hproject hlater (hsame.trans hfails) with
      hfiles | ⟨path, listed, rfl, hmissing⟩
    · exact hfiles.isTrueOf later
    · exact hmissing
  · intro htrue
    have huntimed : executor.timeoutSeconds = none := htimeout.trans h.untimed
    simp only [analyzeInTime, huntimed] at htrue ⊢
    rw [hshape] at htrue ⊢
    exact hreads.analyze_eq hcurrentPlace fun path listed hfails => htrue _ hfails

/-- A project that could not be analyzed comes to the same again if what was told of the failure is
still true, and then nothing is written. -/
theorem executeProject_unread [Record ρ]
    (h : RunsAside extraction config executor tree corpus mode)
    (hcorpus : tree.isDirectory corpus = true)
    (hproject : project ∈ executor.projects tree corpus mode)
    (hcurrent : tree.Spares current (tree.placeOf corpus)) {error : ProjectError}
    (hfails : executor.analyzeInTime current project = .error error)
    (hanalyzed : executor.analyzeInTime later project = .error error ↔ error.IsTrueOf later) :
    ((executor.executeProject later project).2 = ⟨project.name, project.root, .failed error⟩ ↔
        error.IsTrueOf later) ∧
      ((executor.executeProject later project).2 = ⟨project.name, project.root, .failed error⟩ →
        (executor.executeProject later project).1 = later) := by
  cases hlater : executor.analyzeInTime later project with
  | error other =>
    rw [hlater] at hanalyzed
    rw [executeProject_of_error hlater]
    exact ⟨by simpa using hanalyzed, fun _ => rfl⟩
  | ok facts =>
    have huntrue : ¬ error.IsTrueOf later := by
      rw [← hanalyzed, hlater]
      simp
    -- the failure was that a module is missing, so that it was no failure of writing
    have hother : (executor.executeProject later project).2 ≠
        ⟨project.name, project.root, .failed error⟩ := by
      rcases h.analyzeInTime_error_cases hcorpus hproject hcurrent hfails with
        hfiles | ⟨path, listed, rfl, _⟩
      · exact absurd (hfiles.isTrueOf later) huntrue
      · rw [executeProject_of_ok hlater]
        cases (writeText later (executor.naming.path project.name)
          (renderRecords executor.naming.format facts.records)).2 <;> simp [verdictOf]
    exact ⟨iff_of_false hother huntrue, fun hsame => absurd hsame hother⟩

/-- A project comes to the same again if what was told of a failure is still true, and then it
writes what it wrote. -/
theorem executeProject_iff [Record ρ] (h : RunsAside extraction config executor tree corpus mode)
    (hcorpus : tree.isDirectory corpus = true)
    (hproject : project ∈ executor.projects tree corpus mode)
    (hcurrent : tree.Spares current (tree.placeOf corpus))
    (hlater : tree.Spares later (tree.placeOf corpus))
    (hgrows : (executor.executeProject current project).1.GrowsInKind later (fun _ => True)
      fun _ => True) :
    ((executor.executeProject later project).2 = (executor.executeProject current project).2 ↔
        (executor.executeProject current project).2.IsTrueOf later) ∧
      ((executor.executeProject later project).2 = (executor.executeProject current project).2 →
        FileTree.Rewrites current (executor.executeProject current project).1 later
          (executor.executeProject later project).1) := by
  have hlinkless := hcurrent.isLinkless h.working
  have hstep := (growsTo_executeProject_way executor project hlinkless).inKind.mono
    (fun _ _ => trivial) fun _ _ => trivial
  have hanalyzed := h.analyzeInTime_iff hcorpus hproject hcurrent hlater (hstep.trans hgrows)
  cases hanalysis : executor.analyzeInTime current project with
  | error error =>
    rw [hanalysis] at hanalyzed
    simp only [Except.error.injEq, forall_eq'] at hanalyzed
    obtain ⟨hsame, hkept⟩ :=
      h.executeProject_unread hcorpus hproject hcurrent hanalysis hanalyzed
    rw [executeProject_of_error hanalysis]
    refine ⟨by simpa [Outcome.IsTrueOf] using hsame, fun hagain => ?_⟩
    rw [hkept hagain]
    exact .of_unwritten (.refl _ _ _) _
  | ok facts =>
    have hlaterAnalysis : executor.analyzeInTime later project = .ok facts := by
      rw [hanalyzed.mpr (by simp [hanalysis]), hanalysis]
    rw [executeProject_of_ok hanalysis] at hgrows ⊢
    rw [executeProject_of_ok hlaterAnalysis]
    have hwrites := (hlinkless.avoidsLinks (executor.naming.path project.name)).growsTo_writeText
      (renderRecords executor.naming.format facts.records)
    generalize renderRecords executor.naming.format facts.records = text at *
    simp only [Outcome.mk.injEq, verdictOf_inj, true_and]
    cases hwrite : (writeText current (executor.naming.path project.name) text).2 with
    | error error =>
      obtain ⟨hsame, hkept⟩ := hlinkless.writeText_fails_again hwrite hgrows
      refine ⟨by simpa [Outcome.IsTrueOf, verdictOf, ProjectError.IsTrueOf] using hsame,
        fun hagain => ?_⟩
      rw [hkept hagain]
      exact .of_unwritten (hwrites.1 error hwrite) later
    | ok _ =>
      obtain ⟨hagain, hworking, hfaces⟩ := hlinkless.writeText_again hwrite hgrows
      obtain ⟨hover, hfile, _⟩ := hwrites.2 hwrite
      exact ⟨by simpa [Outcome.IsTrueOf, verdictOf] using hagain,
        fun _ => .of_written hover hfile hworking hfaces⟩

/-- The corpus is spared by executing some of its projects. -/
theorem spares_executeAll [Record ρ] (h : RunsAside extraction config executor tree corpus mode)
    (hprojects : ∀ project ∈ projects, project ∈ executor.projects tree corpus mode)
    (hcurrent : tree.Spares current (tree.placeOf corpus)) :
    tree.Spares (executor.executeAll current projects).1 (tree.placeOf corpus) := by
  induction projects generalizing current with
  | nil => exact hcurrent
  | cons project projects ih =>
    obtain ⟨hproject, hrest⟩ := List.forall_mem_cons.mp hprojects
    exact ih hrest (h.spares_executeProject hproject hcurrent)

/-- Projects come to the same again, in the tree that they came to, if what was told of failures is
still true, and then they write what they wrote. -/
theorem executeAll_iff [Record ρ] (h : RunsAside extraction config executor tree corpus mode)
    (hcorpus : tree.isDirectory corpus = true)
    (hprojects : ∀ project ∈ projects, project ∈ executor.projects tree corpus mode)
    (hcurrent : tree.Spares current (tree.placeOf corpus))
    (hlater : tree.Spares later (tree.placeOf corpus))
    (hagrees : (executor.executeAll current projects).1.AgreesOn later fun _ => True) :
    ((executor.executeAll later projects).2 = (executor.executeAll current projects).2 ↔
        ∀ outcome ∈ (executor.executeAll current projects).2, outcome.IsTrueOf later) ∧
      ((executor.executeAll later projects).2 = (executor.executeAll current projects).2 →
        FileTree.Rewrites current (executor.executeAll current projects).1 later
          (executor.executeAll later projects).1) := by
  induction projects generalizing current later with
  | nil => exact ⟨by simp [executeAll], fun _ => .of_unwritten (.refl _ _ _) _⟩
  | cons project projects ih =>
    obtain ⟨hproject, hrest⟩ := List.forall_mem_cons.mp hprojects
    have hnext := h.spares_executeProject hproject hcurrent
    have hlaterNext := h.spares_executeProject hproject hlater
    rw [executeAll] at hagrees
    -- all that later projects do to the kinds of entries has been done in the later tree
    have hgrows : (executor.executeProject current project).1.GrowsInKind later (fun _ => True)
        fun _ => True := by
      have hall := (grows_executeAll executor (executor.executeProject current project).1
        projects).inKind
      exact {
        working := hagrees.working.trans hall.working
        kinds := fun location => hagrees.kinds location trivial ▸ hall.kinds location }
    obtain ⟨hfirst, hrewrites⟩ := h.executeProject_iff hcorpus hproject hcurrent hlater hgrows
    have hlaterAgrees := fun houtcome => (hrewrites houtcome).agreesOn hgrows hagrees
    have hsecond := fun houtcome => ih hrest hnext hlaterNext (hlaterAgrees houtcome)
    rw [executeAll, executeAll, List.cons.injEq, List.forall_mem_cons, ← hfirst]
    refine ⟨and_congr_right fun houtcome => (hsecond houtcome).1.trans ?_, fun hsame =>
      (hrewrites hsame.1).trans ((hsecond hsame.1).2 hsame.2)⟩
    have htrue := fun error => (hlaterAgrees houtcome).isTrueOf_iff error |>.trans
      (hagrees.isTrueOf_iff error).symm
    simp only [Outcome.IsTrueOf, htrue]

end RunsAside

/-- A run that is done again on the tree it left comes to the same, and leaves that tree as it is,
exactly if all that was told of failures is still true: that a listed module is missing, that a
directory cannot be made because something is there, that a file cannot be written because its
directory is not there. Every other outcome is the same again, whichever output files are the same,
lie inside of each other or cannot be written. -/
theorem rerun_eq_iff [Record ρ] {final : FileTree} {summary : RunSummary}
    (h : RunsAside extraction config executor tree corpus mode)
    (hrun : executor.run tree corpus mode = .ok (final, summary)) :
    ∃ last again, executor.run final corpus mode = .ok (last, again) ∧
      (again = summary ↔ ∀ outcome ∈ summary.outcomes, outcome.IsTrueOf final) ∧
      (again = summary → last = final) := by
  have hcorpus : tree.isDirectory corpus = true := by
    by_contra hnot
    obtain ⟨error, herror⟩ :=
      run_of_not_isDirectory executor mode (Bool.eq_false_iff.mpr hnot)
    rw [herror] at hrun
    cases hrun
  have hfinalCorpus := isDirectory_of_run hcorpus hrun
  obtain ⟨location, hlocation, _⟩ := FileTree.location_of_isDirectory hcorpus
  have havoids : tree.AvoidsLinks corpus := fun spot _ => h.plain spot
  obtain ⟨rfl, _⟩ := havoids.of_resolve_existing (FileTree.resolve_of_canonical hlocation)
  have hspared := FileTree.Spares.refl h.plain h.sound (tree.placeOf corpus)
  have hfinal := h.spares_executeAll (fun _ hproject => hproject) hspared
  rw [run_eq executor hcorpus mode] at hrun
  obtain ⟨rfl, rfl⟩ := Prod.mk.inj (Except.ok.inj hrun)
  -- the second run is over the same projects, in a tree of the kinds that the first one came to
  obtain ⟨_, hmarkers, _, _, _, _, hresolver⟩ := h.configured.spec
  have hprojects := projects_eq_of_keeps hfinal.keeps h.sound
    (.of_canonical (fun spot _ => h.plain spot) hlocation List.prefix_rfl)
    (hmarkers ▸ h.markers) hresolver mode
  obtain ⟨hsame, hrewrites⟩ := h.executeAll_iff hcorpus (fun _ hproject => hproject) hspared
    hfinal ⟨rfl, fun _ _ => rfl, hfinal.keeps.laterPlain, hfinal.keeps.laterPlain⟩
  refine ⟨_, _, run_eq executor hfinalCorpus mode, ?_, fun hagain => ?_⟩
  · rw [hprojects, RunSummary.mk.injEq, eq_self_iff_true, true_and]
    exact hsame
  · rw [hprojects] at hagain ⊢
    exact (hrewrites (RunSummary.mk.inj hagain).2).eq hfinal.sound
      (executeAll_isSound hfinal.sound _)

/-- The listing of modules with one job runs aside from a corpus if some checks succeed. -/
theorem runsAside_of_checks (hsound : tree.root.IsSound) (hplain : tree.root.checkPlain = true)
    (hworking : tree.isDirectoryAt tree.working = true)
    (hcorpus : tree.isDirectory corpus = true)
    (hbelow : ¬ tree.placeOf listingExecutor.naming.directory <+: tree.placeOf corpus)
    (hway : ∀ spot ∈ tree.spotsOf listingExecutor.naming.directory,
      ¬ tree.placeOf corpus <+: spot) :
    RunsAside moduleList { RunConfig.default with outputDirectory := "out", jobs := some 1 }
      listingExecutor tree corpus mode := by
  have hlinks := FileTree.kindAt_ne_link_of_checkPlain hplain
  have hconfigured : IsConfigured moduleList
      { RunConfig.default with outputDirectory := "out", jobs := some 1 } listingExecutor :=
    .plain rfl
  exact {
    configured := hconfigured
    jobs := rfl
    scope := by decide
    markers := by decide
    untimed := rfl
    sound := hsound
    working := hworking
    plain := hlinks
    outside := fun project hproject spot hspot hinside =>
      absurd hinside (outside_of_apart hconfigured (by decide) hsound hcorpus
        (fun location _ => hlinks location) hbelow hway hproject spot hspot) }

/-- A module that is missing and stays so is missing the second time too. -/
theorem missing_module_recurs :
    ∃ final summary,
      listingExecutor.run (twoProjects "include 'gone'" "include 'm'") ⟨"c"⟩ .batch =
        .ok (final, summary) ∧
      summary.outcomes.map (·.isSuccess) = [false, true] ∧
      listingExecutor.run final ⟨"c"⟩ .batch = .ok (final, summary) := by
  have hcorpus : (twoProjects "include 'gone'" "include 'm'").isDirectory ⟨"c"⟩ = true := by
    decide +kernel
  have hprojects : listingExecutor.projects (twoProjects "include 'gone'" "include 'm'") ⟨"c"⟩
      .batch = [.ofRoot "a" ⟨"c/a"⟩, .ofRoot "b" ⟨"c/b"⟩] := by decide +kernel
  have hrun := run_eq listingExecutor hcorpus .batch
  rw [hprojects] at hrun
  obtain ⟨last, again, hagain, hsame, hkept⟩ := rerun_eq_iff
    (runsAside_of_checks (by decide +kernel) (by decide +kernel) rfl hcorpus (by decide +kernel)
      (by decide +kernel)) hrun
  have houtcomes : (listingExecutor.executeAll (twoProjects "include 'gone'" "include 'm'")
      [.ofRoot "a" ⟨"c/a"⟩, .ofRoot "b" ⟨"c/b"⟩]).2 =
        [⟨"a", ⟨"c/a"⟩, .failed (.missingModule ⟨"c/a/gone"⟩ "gone")⟩,
          ⟨"b", ⟨"c/b"⟩, .succeeded ⟨"out/b_gradle_modules.txt"⟩ 1 0 []⟩] := by decide +kernel
  have htrue : again = _ := hsame.mpr fun outcome houtcome error hfailed => by
    rw [houtcomes, List.mem_pair] at houtcome
    rcases houtcome with rfl | rfl
    · obtain rfl := Verdict.failed.inj hfailed
      rw [ProjectError.IsTrueOf]
      decide +kernel
    · cases hfailed
  exact ⟨_, _, hrun, by decide +kernel, by rw [hagain, htrue, hkept htrue]⟩

/-- A module that the output directory stands for is missing the first time only. -/
theorem listed_output_succeeds_later :
    ¬ ∀ (tree final : FileTree) (summary : RunSummary),
      RunsAside moduleList { RunConfig.default with outputDirectory := "out", jobs := some 1 }
        listingExecutor tree ⟨"c"⟩ .batch →
      listingExecutor.run tree ⟨"c"⟩ .batch = .ok (final, summary) →
      listingExecutor.run final ⟨"c"⟩ .batch = .ok (final, summary) := by
  intro hall
  have hcorpus : (twoProjects "include '../../out'" "").isDirectory ⟨"c"⟩ = true := by
    decide +kernel
  have hprojects : listingExecutor.projects (twoProjects "include '../../out'" "") ⟨"c"⟩ .batch =
      [.ofRoot "a" ⟨"c/a"⟩, .ofRoot "b" ⟨"c/b"⟩] := by decide +kernel
  have hrun := run_eq listingExecutor hcorpus .batch
  rw [hprojects] at hrun
  have hagain := hall _ _ _ (runsAside_of_checks (by decide +kernel) (by decide +kernel) rfl
    hcorpus (by decide +kernel) (by decide +kernel)) hrun
  have houtcomes := (of_run hagain).2
  revert houtcomes
  decide +kernel

end Executor

end CorpusFacts
