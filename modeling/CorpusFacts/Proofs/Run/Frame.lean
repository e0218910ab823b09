import CorpusFacts.Proofs.Files.Growth
import CorpusFacts.Proofs.Run.Configured

/-!
# What a run writes

Each project of a run makes the tree grow: by directories, and by its output file if it succeeds. So
the output files of the projects that succeed hold their records, as long as no two of them lie at
the same place, and no other file is touched.
-/

/-! ## What is written -/

namespace CorpusFacts

variable {tree later final : FileTree} {path corpus : Path} {location : List String}
  {mode : RunMode} {summary : RunSummary}

namespace FileTree

/-- Making the directory of a file makes the tree grow by directories. -/
theorem growsTo_makeParent (tree : FileTree) (path : Path) :
    tree.GrowsTo (makeParent tree path).1 (fun _ => True) fun _ => False := by
  have hmade : ∀ parent, tree.GrowsTo (tree.makeDirectories parent).1 (fun _ => True)
      fun _ => False := by
    intro parent
    rw [makeDirectories]
    split
    · exact .refl _ _ _
    · exact growsTo_makeNested fun _ _ _ _ _ _ _ _ => trivial
  rw [makeParent]
  split
  · exact .refl _ _ _
  · rename_i parent _
    have hparent := hmade parent
    split <;> rename_i heq <;> rwa [heq] at hparent

/-- Writing a text by a path without links makes the tree grow by directories and, unless it fails,
by the file at the place of the path, which can be read by the path. -/
theorem AvoidsLinks.growsTo_writeText (hplain : tree.AvoidsLinks path) (text : String) :
    (∀ error, (writeText tree path text).2 = .error error →
      tree.GrowsTo (writeText tree path text).1 (fun _ => True) fun _ => False) ∧
    ((writeText tree path text).2 = .ok () →
      tree.GrowsTo (writeText tree path text).1 (fun _ => True) (· = tree.placeOf path) ∧
      (writeText tree path text).1.root.at? (tree.placeOf path) = some (.file text.toUTF8) ∧
      IsResolvable path ∧
      (writeText tree path text).1.IsPassable (tree.startOf path) path.segments) := by
  have hparent := growsTo_makeParent tree path
  have hend := writeText_end tree path text
  generalize writeText tree path text = result at *
  cases hend with
  | noDirectory hmade =>
    rw [hmade] at hparent
    exact ⟨fun _ _ => hparent, fun h => by cases h⟩
  | noFile hmade _ =>
    rw [hmade] at hparent
    exact ⟨fun _ _ => hparent, fun h => by cases h⟩
  | written hmade hwritten =>
    rw [hmade] at hparent
    obtain ⟨hgrows, hfile, hresolvable, hpassable⟩ :=
      (hparent.avoidsLinks hplain).growsTo_of_write hwritten
    rw [hparent.placeOf] at hgrows hfile
    rw [hparent.startOf] at hpassable
    refine ⟨fun _ h => (by cases h),
      fun _ => ⟨?_, hfile, hresolvable, hgrows.isPassable hpassable⟩⟩
    exact (hparent.mono (fun _ h => h) fun _ h => h.elim).trans
      (hgrows.mono (fun _ h => h.elim) fun _ h => h)

end FileTree

/-- The output file of a project that succeeded. -/
def Outcome.artifact? (outcome : Outcome) : Option Path :=
  match outcome.verdict with
  | .succeeded artifact _ _ _ => some artifact
  | .failed _ => none

namespace Executor

section

variable {π ρ : Type} {executor : Executor π ρ} {project : Project}

/-- What comes of a project that was analyzed, by how writing its records ended. -/
def verdictOf (executor : Executor π ρ) (project : Project) (facts : ProjectFacts ρ) :
    Except OutputError Unit → Verdict
  | .error error => .failed (.output error)
  | .ok _ => .succeeded (executor.naming.path project.name) facts.records.length facts.units
      facts.warnings

/-- A verdict tells how writing ended. -/
@[simp]
theorem verdictOf_inj {facts : ProjectFacts ρ} {first second : Except OutputError Unit} :
    executor.verdictOf project facts first = executor.verdictOf project facts second ↔
      first = second := by
  cases first <;> cases second <;> simp [verdictOf]

end

variable {π ρ : Type} [Record ρ] {executor : Executor π ρ} {project : Project}
  {projects first second : List Project}

/-- A project that cannot be analyzed fails, and nothing is written. -/
theorem executeProject_of_error {error : ProjectError}
    (h : executor.analyzeInTime tree project = .error error) :
    executor.executeProject tree project =
      (tree, ⟨project.name, project.root, .failed error⟩) := by
  rw [executeProject, h]

/-- A project that was analyzed has its records written, if that can be done. -/
theorem executeProject_of_ok {facts : ProjectFacts ρ}
    (h : executor.analyzeInTime tree project = .ok facts) :
    executor.executeProject tree project =
      ((writeText tree (executor.naming.path project.name)
          (renderRecords executor.naming.format facts.records)).1,
        ⟨project.name, project.root, executor.verdictOf project facts
          (writeText tree (executor.naming.path project.name)
            (renderRecords executor.naming.format facts.records)).2⟩) := by
  rw [executeProject, h]
  simp only [writeRecords]
  obtain ⟨written, result⟩ := writeText tree (executor.naming.path project.name)
    (renderRecords executor.naming.format facts.records)
  cases result <;> rfl

/-- Executing a project leaves the tree as it is, or as writing a text to its output file does. -/
theorem executeProject_fst (executor : Executor π ρ) (tree : FileTree) (project : Project) :
    (executor.executeProject tree project).1 = tree ∨
      ∃ text, (executor.executeProject tree project).1 =
        (writeText tree (executor.naming.path project.name) text).1 := by
  cases hanalyzed : executor.analyzeInTime tree project with
  | error error => exact Or.inl (by rw [executeProject_of_error hanalyzed])
  | ok facts => exact Or.inr ⟨_, by rw [executeProject_of_ok hanalyzed]⟩

/-- What executing a project may do to a tree in which no link is on the way to its output file. -/
inductive Turn (executor : Executor π ρ) (tree : FileTree) (project : Project) :
    FileTree → Verdict → Prop
  /-- A project that fails may have made directories. -/
  | failed {later : FileTree} {error : ProjectError}
      (hgrows : tree.GrowsTo later (fun _ => True) fun _ => False) :
      Turn executor tree project later (.failed error)
  /-- A project that succeeds has its records written to its output file. -/
  | succeeded {later : FileTree} {facts : ProjectFacts ρ}
      (hfacts : executor.analyzeInTime tree project = .ok facts)
      (hgrows : tree.GrowsTo later (fun _ => True)
        (· = tree.placeOf (executor.naming.path project.name)))
      (hfile : later.root.at? (tree.placeOf (executor.naming.path project.name)) =
        some (.file (renderRecords executor.naming.format facts.records).toUTF8))
      (hresolvable : FileTree.IsResolvable (executor.naming.path project.name))
      (hpassable : later.IsPassable (tree.startOf (executor.naming.path project.name))
        (executor.naming.path project.name).segments) :
      Turn executor tree project later (.succeeded (executor.naming.path project.name)
        facts.records.length facts.units facts.warnings)

/-- Executing a project is its turn. -/
theorem executeProject_turn (executor : Executor π ρ) (project : Project)
    (hplain : tree.AvoidsLinks (executor.naming.path project.name)) :
    ∃ verdict, (executor.executeProject tree project).2 = ⟨project.name, project.root, verdict⟩ ∧
      executor.Turn tree project (executor.executeProject tree project).1 verdict := by
  cases hanalyzed : executor.analyzeInTime tree project with
  | error error =>
    rw [executeProject_of_error hanalyzed]
    exact ⟨_, rfl, .failed (.refl _ _ _)⟩
  | ok facts =>
    rw [executeProject_of_ok hanalyzed]
    obtain ⟨hfailed, hsucceeded⟩ := hplain.growsTo_writeText
      (renderRecords executor.naming.format facts.records)
    cases hwrite : (writeText tree (executor.naming.path project.name)
        (renderRecords executor.naming.format facts.records)).2 with
    | error error => exact ⟨_, rfl, .failed (hfailed error hwrite)⟩
    | ok _ =>
      obtain ⟨hgrows, hfile, hresolvable, hpassable⟩ := hsucceeded hwrite
      exact ⟨_, rfl, .succeeded hanalyzed hgrows hfile hresolvable hpassable⟩

/-- Executing some projects and then others is executing all of them. -/
theorem executeAll_append (executor : Executor π ρ) (tree : FileTree)
    (first second : List Project) :
    executor.executeAll tree (first ++ second) =
      ((executor.executeAll (executor.executeAll tree first).1 second).1,
        (executor.executeAll tree first).2 ++
          (executor.executeAll (executor.executeAll tree first).1 second).2) := by
  induction first generalizing tree with
  | nil => rfl
  | cons project first ih =>
    rw [List.cons_append, executeAll, executeAll]
    simp only [ih, List.cons_append]

/-- Executing projects makes the tree grow by directories and by the output files of those that
succeed. -/
theorem growsTo_executeAll (executor : Executor π ρ) (projects : List Project)
    (hplain : ∀ project ∈ projects, tree.AvoidsLinks (executor.naming.path project.name)) :
    tree.GrowsTo (executor.executeAll tree projects).1 (fun _ => True) fun location =>
      ∃ outcome ∈ (executor.executeAll tree projects).2, ∃ artifact ∈ outcome.artifact?,
        location = tree.placeOf artifact := by
  induction projects generalizing tree with
  | nil => exact .refl _ _ _
  | cons project projects ih =>
    obtain ⟨hhere, hrest⟩ := List.forall_mem_cons.mp hplain
    obtain ⟨verdict, houtcome, hturn⟩ := executeProject_turn executor project hhere
    rw [executeAll]
    have hnext : tree.GrowsTo (executor.executeProject tree project).1 (fun _ => True)
        fun location => ∃ artifact ∈ (executor.executeProject tree project).2.artifact?,
          location = tree.placeOf artifact := by
      rw [houtcome]
      cases hturn with
      | failed hgrows => exact hgrows.mono (fun _ h => h) fun _ h => h.elim
      | succeeded _ hgrows => exact hgrows.mono (fun _ h => h) fun _ h => ⟨_, rfl, h⟩
    refine (hnext.mono (fun _ h => h) ?_).trans
      ((ih fun other hother => hnext.avoidsLinks (hrest other hother)).mono (fun _ h => h) ?_)
    · rintro location ⟨artifact, hartifact, hlocation⟩
      exact ⟨_, List.mem_cons_self .., artifact, hartifact, hlocation⟩
    · rintro location ⟨outcome, hmem, artifact, hartifact, hlocation⟩
      rw [hnext.placeOf] at hlocation
      exact ⟨outcome, List.mem_cons_of_mem _ hmem, artifact, hartifact, hlocation⟩

/-- The output file of an outcome is that of one of the projects. -/
theorem exists_project_of_artifact {outcome : Outcome} {artifact : Path}
    (h : outcome ∈ (executor.executeAll tree projects).2)
    (hartifact : artifact ∈ outcome.artifact?) :
    ∃ project ∈ projects, artifact = executor.naming.path project.name := by
  induction projects generalizing tree with
  | nil => cases h
  | cons project projects ih =>
    rw [executeAll] at h
    rcases List.mem_cons.mp h with rfl | h
    · refine ⟨project, List.mem_cons_self .., ?_⟩
      rw [executeProject] at hartifact
      simp only at hartifact
      split at hartifact
      · cases hartifact
      · split at hartifact
        · cases hartifact
        · exact (Option.some.inj hartifact).symm
    · obtain ⟨other, hother, heq⟩ := ih h
      exact ⟨other, List.mem_cons_of_mem _ hother, heq⟩

/-- Executing some projects, one more and then others: the one more is executed in the tree that the
first ones leave, and the others in the one that it leaves. -/
theorem executeAll_split (executor : Executor π ρ) (tree : FileTree) (before : List Project)
    (project : Project) (after : List Project) {current next : FileTree}
    (hcurrent : (executor.executeAll tree before).1 = current)
    (hnext : (executor.executeProject current project).1 = next) :
    (executor.executeAll tree (before ++ [project])).1 = next ∧
      executor.executeAll tree (before ++ project :: after) =
        ((executor.executeAll next after).1, (executor.executeAll tree before).2 ++
          (executor.executeProject current project).2 :: (executor.executeAll next after).2) := by
  rw [executeAll_append, executeAll_append, hcurrent]
  simp only [executeAll, hnext, and_self]

/-- A file keeps its bytes, and no new one comes up at its place, while projects are executed whose
output files lie elsewhere. -/
theorem file_executeAll_iff
    (hothers : ∀ project ∈ projects, tree.AvoidsLinks (executor.naming.path project.name))
    (hapart : ∀ project ∈ projects,
      location ≠ tree.placeOf (executor.naming.path project.name)) (content : ByteArray) :
    (executor.executeAll tree projects).1.root.at? location = some (.file content) ↔
      tree.root.at? location = some (.file content) := by
  refine (growsTo_executeAll executor projects hothers).file_iff ?_ content
  rintro ⟨outcome, houtcome, artifact, hartifact, hplace⟩
  obtain ⟨project, hproject, rfl⟩ := exists_project_of_artifact houtcome hartifact
  exact hapart project hproject hplace

/-- A file that can be read keeps its bytes while projects are executed whose output files lie
elsewhere. -/
theorem read_executeAll {content : ByteArray} (hplain : tree.AvoidsLinks path)
    (hresolvable : FileTree.IsResolvable path)
    (hpassable : tree.IsPassable (tree.startOf path) path.segments)
    (hfile : tree.root.at? (tree.placeOf path) = some (.file content))
    (hothers : ∀ project ∈ projects, tree.AvoidsLinks (executor.naming.path project.name))
    (hapart : ∀ project ∈ projects,
      tree.placeOf path ≠ tree.placeOf (executor.naming.path project.name)) :
    (executor.executeAll tree projects).1.canonical path = .ok (tree.placeOf path) ∧
      (executor.executeAll tree projects).1.read path = .ok content := by
  have hgrows := growsTo_executeAll executor projects hothers
  have hkept := (file_executeAll_iff hothers hapart content).mpr hfile
  rw [← hgrows.startOf] at hpassable
  rw [← hgrows.placeOf] at hkept ⊢
  exact (hgrows.avoidsLinks hplain).read_eq hresolvable (hgrows.isPassable hpassable) hkept

/-- A project that succeeded made its records from the tree. They are what its output file, at its
place, holds, also after projects were executed whose output files lie elsewhere. -/
theorem Turn.of_succeeded {artifact : Path} {facts units : Nat} {warnings : List String}
    (hturn : executor.Turn tree project later (.succeeded artifact facts units warnings))
    (hplain : tree.AvoidsLinks (executor.naming.path project.name))
    (hothers : ∀ other ∈ projects, tree.AvoidsLinks (executor.naming.path other.name))
    (hapart : ∀ other ∈ projects, tree.placeOf (executor.naming.path project.name) ≠
      tree.placeOf (executor.naming.path other.name)) :
    ∃ result, executor.analyzeInTime tree project = .ok result ∧
      artifact = executor.naming.path project.name ∧ facts = result.records.length ∧
      units = result.units ∧ warnings = result.warnings ∧
      (executor.executeAll later projects).1.canonical artifact = .ok (tree.placeOf artifact) ∧
      (executor.executeAll later projects).1.read artifact =
        .ok (renderRecords executor.naming.format result.records).toUTF8 := by
  cases hturn with
  | @succeeded result hfacts hgrows hfile hresolvable hpassable =>
    refine ⟨result, hfacts, rfl, rfl, rfl, rfl, ?_⟩
    rw [← hgrows.placeOf] at hfile ⊢
    rw [← hgrows.startOf] at hpassable
    refine read_executeAll (hgrows.avoidsLinks hplain) hresolvable hpassable hfile
      (fun other hother => hgrows.avoidsLinks (hothers other hother)) fun other hother => ?_
    rw [hgrows.placeOf, hgrows.placeOf]
    exact hapart other hother

/-- What becomes of one project in the course of a run: what its outcome says of it, and what it
does to the files. -/
structure Settles (executor : Executor π ρ) (tree final : FileTree) (before : List Project)
    (project : Project) (outcome : Outcome) : Prop where
  /-- The outcome is that of the project. -/
  identity : outcome.project = project.name ∧ outcome.root = project.root
  /-- A project that succeeded made its records from the tree as it was at its turn. They are what
  its output file, at its place, holds in the end, and its number of facts is their number. -/
  succeeded : ∀ artifact facts units warnings,
    outcome.verdict = .succeeded artifact facts units warnings →
    ∃ result, executor.analyzeInTime (executor.executeAll tree before).1 project = .ok result ∧
      artifact = executor.naming.path project.name ∧ facts = result.records.length ∧
      units = result.units ∧ warnings = result.warnings ∧
      final.canonical artifact = .ok (tree.placeOf artifact) ∧
      final.read artifact = .ok (renderRecords executor.naming.format result.records).toUTF8
  /-- A project that failed left every file as it was before, and made none. -/
  failed : ∀ error, outcome.verdict = .failed error → ∀ location content,
    (executor.executeAll tree (before ++ [project])).1.root.at? location = some (.file content) ↔
      (executor.executeAll tree before).1.root.at? location = some (.file content)

/-- A run over a directory executes its projects. -/
theorem run_eq (executor : Executor π ρ) (hcorpus : tree.isDirectory corpus = true)
    (mode : RunMode) :
    executor.run tree corpus mode =
      .ok ((executor.executeAll tree (executor.projects tree corpus mode)).1,
        ⟨executor.extraction.name,
          (executor.executeAll tree (executor.projects tree corpus mode)).2⟩) := by
  have hexists : tree.exists? corpus = true := by
    rw [FileTree.isDirectory] at hcorpus
    rw [FileTree.exists?]
    split at hcorpus
    · rename_i heq
      rw [heq]
      rfl
    · cases hcorpus
  have hchecked : checkCorpus tree corpus = .ok () := by
    rw [checkCorpus, hexists, hcorpus]
    rfl
  rw [run, hchecked]
  rfl

/-- A run that starts executes its projects. -/
theorem of_run (h : executor.run tree corpus mode = .ok (final, summary)) :
    final = (executor.executeAll tree (executor.projects tree corpus mode)).1 ∧
      summary.outcomes = (executor.executeAll tree (executor.projects tree corpus mode)).2 := by
  obtain ⟨_, _, h⟩ := FileTree.exists_of_bind_eq_ok h
  cases h
  exact ⟨rfl, rfl⟩

/-- An executor that lists modules by the default configuration. -/
def listingExecutor : Executor Unit ModuleRecord :=
  ⟨moduleList, ⟨RunConfig.defaultMarkers, ⟨[]⟩, Gradle.listedModules⟩,
    ⟨⟨"out"⟩, defaultPattern, "gradle_modules", .lines⟩, none, none⟩

end Executor

end CorpusFacts

/-! ## When runs start

A configuration that was checked makes an executor of every extraction. Its run starts whenever the
corpus is a directory, and the corpus is still one afterwards, whatever links there are. -/

namespace CorpusFacts

variable {tree later final : FileTree} {path corpus : Path}

namespace FileTree

/-- Writing a text makes the tree grow, whether it fails or not. -/
theorem growsTo_writeText (tree : FileTree) (path : Path) (text : String) :
    tree.GrowsTo (writeText tree path text).1 (fun _ => True) fun _ => True := by
  have hparent := (growsTo_makeParent tree path).mono (fun _ h => h) fun _ _ => trivial
  rcases writeText_fst tree path text with hsame | hwritten
  · rwa [hsame]
  · obtain ⟨place, hgrows, _⟩ := growsTo_of_write hwritten
    exact hparent.trans (hgrows.mono (fun _ _ => trivial) fun _ _ => trivial)

end FileTree

namespace Executor

variable {π ρ : Type} [Record ρ] {executor : Executor π ρ} {extraction : Extraction π ρ}
  {config : RunConfig} {mode : RunMode} {summary : RunSummary}

/-- Executing a project makes the tree grow. -/
theorem grows_executeProject (executor : Executor π ρ) (tree : FileTree) (project : Project) :
    tree.GrowsTo (executor.executeProject tree project).1 (fun _ => True) fun _ => True := by
  rcases executeProject_fst executor tree project with hsame | ⟨text, hwritten⟩
  · rw [hsame]
    exact .refl _ _ _
  · rw [hwritten]
    exact tree.growsTo_writeText _ text

/-- Executing projects makes the tree grow, whatever links there are. -/
theorem grows_executeAll (executor : Executor π ρ) (tree : FileTree) (projects : List Project) :
    tree.GrowsTo (executor.executeAll tree projects).1 (fun _ => True) fun _ => True := by
  induction projects generalizing tree with
  | nil => exact .refl _ _ _
  | cons project projects ih => exact (grows_executeProject executor tree project).trans (ih _)

/-- A run over something else than a directory does not start. -/
theorem run_of_not_isDirectory (executor : Executor π ρ) (mode : RunMode)
    (hcorpus : tree.isDirectory corpus = false) :
    ∃ error, executor.run tree corpus mode = .error error := by
  have hrefused : ∃ error, checkCorpus tree corpus = .error error := by
    rw [checkCorpus, hcorpus]
    split
    · exact ⟨_, rfl⟩
    · exact ⟨_, rfl⟩
  obtain ⟨error, herror⟩ := hrefused
  exact ⟨error, by rw [run, herror]; rfl⟩

/-- After a run the corpus is a directory still. -/
theorem isDirectory_of_run (hcorpus : tree.isDirectory corpus = true)
    (h : executor.run tree corpus mode = .ok (final, summary)) :
    final.isDirectory corpus = true := by
  obtain ⟨rfl, _⟩ := of_run h
  exact (grows_executeAll executor tree _).isDirectory hcorpus

end Executor

namespace RunConfig

variable {config : RunConfig}

/-- What has been found when a configuration was checked. -/
structure IsValid (config : RunConfig) : Prop where
  /-- There is a worker. -/
  jobs : (config.jobs == some 0) = false
  /-- There is such a run mode. -/
  runMode : ∃ mode, config.runMode = .ok mode
  /-- There is such an output format, if one is named. -/
  outputFormat : ∃ format, config.outputFormat? = .ok format
  /-- The pattern of file names has no fault. -/
  pattern : checkPattern patternFault? config.fileName = .ok ()
  /-- The patterns of paths have no fault. -/
  exclusions : ∃ globs, config.exclusions = .ok globs
  /-- There are such languages. -/
  languages : ∃ languages, config.importLanguages = .ok languages

/-- A configuration that passes its check is valid. -/
theorem isValid_of_validate (h : config.validate = .ok ()) : config.IsValid := by
  rw [validate] at h
  split at h
  · cases h
  rename_i hjobs
  obtain ⟨mode, hmode, h⟩ := FileTree.exists_of_bind_eq_ok h
  obtain ⟨format, hformat, h⟩ := FileTree.exists_of_bind_eq_ok h
  obtain ⟨_, hpattern, h⟩ := FileTree.exists_of_bind_eq_ok h
  obtain ⟨globs, hglobs, h⟩ := FileTree.exists_of_bind_eq_ok h
  obtain ⟨languages, hlanguages, _⟩ := FileTree.exists_of_bind_eq_ok h
  exact ⟨by simpa using hjobs, ⟨mode, hmode⟩, ⟨format, hformat⟩, hpattern, ⟨globs, hglobs⟩,
    ⟨languages, hlanguages⟩⟩

/-- A valid configuration makes an executor of every extraction. -/
theorem IsValid.ofConfig {π ρ : Type} (h : config.IsValid) (extraction : Extraction π ρ) :
    ∃ executor, Executor.ofConfig extraction config = .ok executor := by
  obtain ⟨format, hformat⟩ := h.outputFormat
  obtain ⟨globs, hglobs⟩ := h.exclusions
  rw [Executor.ofConfig, h.jobs, RunConfig.outputFormat, hformat, h.pattern,
    ProjectFinder.ofConfig, hglobs]
  exact ⟨_, rfl⟩

end RunConfig

end CorpusFacts
