import CorpusFacts.CommandLine.Run
import CorpusFacts.Proofs.Run.Frame

/-!
# Exit codes

The runs of a command start all or not at all: the configuration is checked before the first of
them, and each leaves the corpus the directory that it was. A command that does not get that far
changes nothing. One that does ends with the exit code of an error only if a summary is asked for
and cannot be written, and this is found out when all output files have been written.
-/

namespace CorpusFacts.CommandLine

variable {tree : FileTree} {config : RunConfig} {corpus : Path} {command : Command}
  {arguments : Arguments} {actions : List RunAction}

/-- A run that starts over a directory, which it leaves one, and over nothing else. -/
structure Starts (corpus : Path) (action : RunAction) : Prop where
  /-- It starts over a directory. -/
  starts : ∀ tree, tree.isDirectory corpus = true →
    ∃ written summary, action tree = .ok (written, summary) ∧ written.isDirectory corpus = true
  /-- It does not start over anything else. -/
  refuses : ∀ tree, tree.isDirectory corpus = false → ∃ error, action tree = .error error

/-- The run of an executor that can be made starts. -/
theorem starts_runOf {π ρ : Type} [Record ρ] {executor : Except ConfigError (Executor π ρ)}
    (hmade : ∃ made, executor = .ok made) (hmode : ∃ mode, config.runMode = .ok mode)
    (corpus : Path) : Starts corpus (runOf executor config corpus) := by
  obtain ⟨made, rfl⟩ := hmade
  obtain ⟨mode, hmode⟩ := hmode
  have hrun (tree : FileTree) :
      runOf (.ok made) config corpus tree = made.run tree corpus mode := by
    rw [runOf, hmode]
    rfl
  constructor
  · intro tree hcorpus
    have hstarts := made.run_eq hcorpus mode
    exact ⟨_, _, (hrun tree).trans hstarts, Executor.isDirectory_of_run hcorpus hstarts⟩
  · intro tree hcorpus
    obtain ⟨error, herror⟩ := made.run_of_not_isDirectory mode hcorpus
    exact ⟨error, (hrun tree).trans herror⟩

/-- Under a valid configuration every run of a command starts. -/
theorem starts_of_isValid (h : config.IsValid) (command : Command) (corpus : Path) :
    ∀ action ∈ command.runs config corpus, Starts corpus action := by
  have himports : ∃ made, importExecutor config = .ok made := by
    obtain ⟨languages, hlanguages⟩ := h.languages
    obtain ⟨made, hmade⟩ := h.ofConfig (Imports.imports languages
      ⟨config.imports.excludesProjectPackages, config.imports.isDistinct⟩)
    exact ⟨made, by rw [importExecutor, hlanguages]; exact hmade⟩
  have htagging : ∃ made, taggingExecutor config = .ok made := by
    obtain ⟨made, hmade⟩ := h.ofConfig tags
    rw [taggingExecutor, hmade]
    exact ⟨_, rfl⟩
  have hstarts {π ρ : Type} [Record ρ] {executor : Except ConfigError (Executor π ρ)}
      (hmade : ∃ made, executor = .ok made) := starts_runOf hmade h.runMode corpus
  have heach {π ρ : Type} [Record ρ] (extraction : Extraction π ρ) :=
    hstarts (h.ofConfig extraction)
  cases command with
  | imports => simpa [Command.runs] using hstarts himports
  | dependencies => simpa [Command.runs] using heach Gradle.dependencies
  | plugins => simpa [Command.runs] using heach Gradle.plugins
  | properties => simpa [Command.runs] using heach Gradle.properties
  | modules => simpa [Command.runs] using heach moduleList
  | metrics => simpa [Command.runs] using heach CorpusFacts.metrics
  | tag => simpa [Command.runs] using hstarts htagging
  | all =>
    simp only [Command.runs, everyRun, List.forall_mem_cons]
    exact ⟨hstarts himports, heach _, heach _, heach _, heach _, heach _, hstarts htagging, by simp⟩

/-- There is something to run for every command. -/
theorem Command.runs_ne_nil (command : Command) (config : RunConfig) (corpus : Path) :
    command.runs config corpus ≠ [] := by
  cases command <;> simp [Command.runs, everyRun]

/-- Runs that start over a directory all go through over one. -/
theorem runAll_of_isDirectory (hstarts : ∀ action ∈ actions, Starts corpus action)
    (hcorpus : tree.isDirectory corpus = true) :
    ∃ written runs, runAll tree actions = (written, .ok runs) := by
  induction actions generalizing tree with
  | nil => exact ⟨tree, [], rfl⟩
  | cons action rest ih =>
    obtain ⟨hfirst, hrest⟩ := List.forall_mem_cons.mp hstarts
    obtain ⟨written, summary, haction, hkept⟩ := hfirst.starts tree hcorpus
    obtain ⟨last, runs, hlast⟩ := ih hrest hkept
    exact ⟨last, summary :: runs, by simp only [runAll, haction, hlast]⟩

/-- Over anything else the first of them is refused, and nothing has been written. -/
theorem runAll_of_not_isDirectory (hstarts : ∀ action ∈ actions, Starts corpus action)
    (hne : actions ≠ []) (hcorpus : tree.isDirectory corpus = false) :
    ∃ error, runAll tree actions = (tree, .error error) := by
  obtain ⟨action, rest, rfl⟩ := List.exists_cons_of_ne_nil hne
  obtain ⟨error, herror⟩ := (hstarts action (List.mem_cons_self ..)).refuses tree hcorpus
  exact ⟨error, by simp only [runAll, herror]⟩

/-- The configuration of a command is valid. -/
theorem isValid_of_config (h : arguments.config tree command = .ok config) : config.IsValid := by
  rw [Arguments.config] at h
  split at h
  all_goals
    obtain ⟨loaded, _, h⟩ := FileTree.exists_of_bind_eq_ok h
    dsimp only at h
    split at h
    · obtain ⟨_, hshared, h⟩ := FileTree.exists_of_bind_eq_ok h
      obtain ⟨_, hvalid, _⟩ := FileTree.exists_of_bind_eq_ok hshared
      cases h
      exact RunConfig.isValid_of_validate hvalid
    · obtain ⟨_, hvalid, h⟩ := FileTree.exists_of_bind_eq_ok h
      cases h
      exact RunConfig.isValid_of_validate hvalid

/-- Some project of some runs failed. -/
def HasFailure (runs : List RunSummary) : Prop :=
  ∃ run ∈ runs, ∃ outcome ∈ run.outcomes, outcome.isSuccess = false

/-- Failures are counted where there are some. -/
theorem totalFailed_pos_iff (runs : List RunSummary) : 0 < totalFailed runs ↔ HasFailure runs := by
  have hrun (run : RunSummary) :
      0 < run.failed ↔ ∃ outcome ∈ run.outcomes, outcome.isSuccess = false := by
    simp [RunSummary.failed, List.countP_pos_iff]
  induction runs with
  | nil => simp [totalFailed, totalOf, HasFailure]
  | cons run runs ih =>
    have hsum : totalFailed (run :: runs) = run.failed + totalFailed runs := rfl
    rw [hsum, Nat.add_pos_iff_pos_or_pos, hrun]
    simpa [HasFailure] using or_congr_right ih

namespace Request

variable {request : Request} {written : FileTree} {runs : List RunSummary}

/-- The runs of a request go through: it has a configuration, under which every run starts. -/
structure Completes (request : Request) (tree : FileTree) (config : RunConfig) (written : FileTree)
    (runs : List RunSummary) : Prop where
  /-- The configuration. -/
  config_eq : request.arguments.config tree request.command = .ok config
  /-- The runs, and the tree that they leave. -/
  runs_eq : runAll tree (request.command.runs config request.arguments.corpusPath) =
    (written, .ok runs)

/-- A summary is asked for, and cannot be written. -/
def LosesSummary (request : Request) (config : RunConfig) (written : FileTree)
    (runs : List RunSummary) : Prop :=
  ∃ path ∈ config.summaryFile, ∃ error,
    (writeSummary written ⟨path⟩ request.arguments.corpusPath.text runs).2 = .error error

/-- What holds of some runs of a request that go through holds of those that do. -/
theorem Completes.exists_iff (h : request.Completes tree config written runs)
    {P : RunConfig → FileTree → List RunSummary → Prop} :
    (∃ config written runs, request.Completes tree config written runs ∧ P config written runs) ↔
      P config written runs := by
  refine ⟨?_, fun hp => ⟨_, _, _, h, hp⟩⟩
  rintro ⟨config', written', runs', h', hp⟩
  have hconfig := h'.config_eq
  rw [h.config_eq] at hconfig
  cases hconfig
  have hruns := h'.runs_eq
  rw [h.runs_eq] at hruns
  cases hruns
  exact hp

/-- A request whose runs do not go through changes nothing and ends as an error. -/
theorem completes_or_unchanged (request : Request) (tree : FileTree) :
    (∃ config written runs, request.Completes tree config written runs) ∨
      ∃ message, request.run tree = (tree, .error message) := by
  cases hconfig : request.arguments.config tree request.command with
  | error error => exact .inr ⟨error.message, by simp only [run, hconfig]⟩
  | ok config =>
    have hstarts := starts_of_isValid (isValid_of_config hconfig) request.command
      request.arguments.corpusPath
    cases hcorpus : tree.isDirectory request.arguments.corpusPath with
    | true =>
      obtain ⟨written, runs, hruns⟩ := runAll_of_isDirectory hstarts hcorpus
      exact .inl ⟨config, written, runs, hconfig, hruns⟩
    | false =>
      obtain ⟨error, herror⟩ := runAll_of_not_isDirectory hstarts
        (request.command.runs_ne_nil config _) hcorpus
      exact .inr ⟨error.message, by simp only [run, hconfig, herror]⟩

/-- A request whose runs go through ends as an error if its summary cannot be written, otherwise as
a failure if failures count and there are some, and otherwise as a success. -/
theorem Completes.exitCode_eq (h : request.Completes tree config written runs) :
    (request.run tree).2.exitCode = exitError ∧ request.LosesSummary config written runs ∨
    ¬ request.LosesSummary config written runs ∧
      ((request.run tree).2.exitCode = exitFailed ∧
          request.arguments.has .strict = true ∧ HasFailure runs ∨
        (request.run tree).2.exitCode = exitSuccess ∧
          ¬ (request.arguments.has .strict = true ∧ HasFailure runs)) := by
  have hcounts : (request.arguments.has .strict && totalFailed runs > 0) = true ↔
      request.arguments.has .strict = true ∧ HasFailure runs := by
    rw [Bool.and_eq_true, decide_eq_true_iff, gt_iff_lt, totalFailed_pos_iff]
  have hrun : request.run tree = finish request.arguments config written runs := by
    simp only [run, h.config_eq, h.runs_eq]
  have hending (code : Nat) (hcode : code =
      if request.arguments.has .strict && totalFailed runs > 0 then exitFailed else exitSuccess) :
      code = exitFailed ∧ request.arguments.has .strict = true ∧ HasFailure runs ∨
        code = exitSuccess ∧ ¬ (request.arguments.has .strict = true ∧ HasFailure runs) := by
    rw [← hcounts]
    split at hcode
    · exact .inl ⟨hcode, ‹_›⟩
    · exact .inr ⟨hcode, ‹_›⟩
  rw [hrun, finish]
  cases hfile : config.summaryFile with
  | none => exact .inr ⟨by simp [LosesSummary, hfile], hending _ rfl⟩
  | some path =>
    have hloses : request.LosesSummary config written runs ↔ ∃ error,
        (writeSummary written ⟨path⟩ request.arguments.corpusPath.text runs).2 = .error error := by
      simp [LosesSummary, hfile]
    cases hsummary : writeSummary written ⟨path⟩ request.arguments.corpusPath.text runs with
    | mk last result =>
      rw [hsummary] at hloses
      cases result with
      | error error => exact .inl ⟨by simp only [hsummary], hloses.mpr ⟨error, rfl⟩⟩
      | ok _ =>
        refine .inr ⟨by simp [hloses], ?_⟩
        simp only [hsummary]
        exact hending _ rfl

/-- How commands end, for every request and every tree. The exit code of an error means that nothing
was changed, or that all runs went through and their summary could not be written. The one of a
failure means that failures count, that the runs went through, that some project failed and that no
summary was lost. In every other case it is the one of a success. -/
theorem exitCode_run (request : Request) (tree : FileTree) :
    ((request.run tree).2.exitCode = exitError ↔
      ((request.run tree).1 = tree ∧ (request.run tree).2.output = "" ∧
          ¬ ∃ config written runs, request.Completes tree config written runs) ∨
        ∃ config written runs, request.Completes tree config written runs ∧
          request.LosesSummary config written runs) ∧
    ((request.run tree).2.exitCode = exitFailed ↔
      ∃ config written runs, request.Completes tree config written runs ∧
        request.arguments.has .strict = true ∧ HasFailure runs ∧
        ¬ request.LosesSummary config written runs) ∧
    ((request.run tree).2.exitCode = exitError ∨ (request.run tree).2.exitCode = exitFailed ∨
      (request.run tree).2.exitCode = exitSuccess) := by
  have hcodes : exitError ≠ exitFailed ∧ exitError ≠ exitSuccess ∧ exitFailed ≠ exitSuccess := by
    decide
  by_cases hcompletes : ∃ config written runs, request.Completes tree config written runs
  · obtain ⟨config, written, runs, h⟩ := hcompletes
    have hthrough : ∃ config written runs, request.Completes tree config written runs :=
      ⟨_, _, _, h⟩
    rw [h.exists_iff, h.exists_iff]
    rcases h.exitCode_eq with ⟨hcode, hloses⟩ | ⟨hkept, ⟨hcode, hstrict, hfailure⟩ | ⟨hcode, hnot⟩⟩
    · rw [hcode]
      simp [hcodes, hloses]
    · rw [hcode]
      simp [hcodes.1.symm, hkept, hstrict, hfailure, hthrough]
    · rw [hcode]
      simp only [hcodes.2.1.symm, hcodes.2.2.symm, hkept, hthrough, not_true_eq_false, and_false,
        or_self, or_true, not_false_eq_true, and_true, iff_self, true_and, false_iff]
      exact hnot
  · obtain ⟨message, hrun⟩ := (completes_or_unchanged request tree).resolve_left hcompletes
    have hnone {P : RunConfig → FileTree → List RunSummary → Prop} :
        ¬ ∃ config written runs, request.Completes tree config written runs ∧
          P config written runs :=
      fun ⟨config, written, runs, h, _⟩ => hcompletes ⟨config, written, runs, h⟩
    rw [hrun]
    simp [Ending.error, hcodes.1, hcompletes, hnone]

/-- A corpus of one project, and a directory where a summary is asked for. -/
def summaryInTheWay : FileTree :=
  ⟨.directory [("c", .directory [("a", .directory [("settings.gradle", .file "".toUTF8)])]),
    ("s", .directory [])], []⟩

/-- A request to list modules, quietly and with a summary, as its arguments give it. -/
def listingRequest : Request :=
  ⟨.modules, { Arguments.start with
    given := [(.summary, "s"), (.quiet, ""), (.outputDirectory, "out"), (.mode, "batch")]
    corpus := some "c" }⟩

/-- The arguments of that request. -/
example : CommandLine.request ["modules", "c", "-m", "batch", "-o", "out", "-q", "--summary", "s"] =
    .ok listingRequest := by decide +kernel

/-- The output files are there when the summary cannot be written, and the command ends with the
exit code of an error. -/
theorem error_after_writing :
    ¬ ∀ (request : Request) (tree : FileTree),
      (request.run tree).2.exitCode = exitError → (request.run tree).1 = tree := by
  intro hall
  have hcode : (listingRequest.run summaryInTheWay).2.exitCode = exitError := by decide +kernel
  have hwritten : (listingRequest.run summaryInTheWay).1.isFile ⟨"out/a_gradle_modules.txt"⟩ =
      true := by decide +kernel
  have hbefore : summaryInTheWay.isFile ⟨"out/a_gradle_modules.txt"⟩ = false := by decide +kernel
  rw [hall _ _ hcode, hbefore] at hwritten
  cases hwritten

end Request

end CorpusFacts.CommandLine
