import CorpusFacts.Proofs.Files.Preservation
import CorpusFacts.Proofs.Output.Descent
import CorpusFacts.Proofs.Project.Confinement

/-!
# Configured executors

What is known of an executor that was made from a configuration, and of the projects it finds: the
pattern of its output files has been checked, and in a corpus of several projects each is named for
its directory.
-/

namespace CorpusFacts.Executor

variable {π ρ : Type} {extraction : Extraction π ρ} {config : RunConfig}
  {executor base : Executor π ρ} {tree : FileTree} {corpus : Path} {mode : RunMode}
  {project : Project}

/-- An executor is that of an extraction under a configuration, with or without a search for
builds. -/
inductive IsConfigured (extraction : Extraction π ρ) (config : RunConfig) : Executor π ρ → Prop
  /-- It takes projects as they are. -/
  | plain {base : Executor π ρ} (h : ofConfig extraction config = .ok base) :
      IsConfigured extraction config base
  /-- It looks for the builds of projects. -/
  | resolving {base : Executor π ρ} (h : ofConfig extraction config = .ok base) :
      IsConfigured extraction config base.resolvingRoots

/-- An executor has everything from its extraction and the configuration, with a pattern that was
checked. -/
theorem of_ofConfig (h : ofConfig extraction config = .ok base) :
    base.extraction = extraction ∧ base.finder.markers = config.markers ∧
      base.finder.lister = Gradle.listedModules ∧ base.naming.analysis = extraction.name ∧
      patternFault? base.naming.pattern = none ∧ base.timeoutSeconds = config.timeoutSeconds ∧
      base.resolver = none := by
  rw [ofConfig] at h
  split at h
  · cases h
  obtain ⟨format, _, h⟩ := FileTree.exists_of_bind_eq_ok h
  obtain ⟨_, hpattern, h⟩ := FileTree.exists_of_bind_eq_ok h
  obtain ⟨finder, hfinder, h⟩ := FileTree.exists_of_bind_eq_ok h
  cases h
  have hfound : finder.markers = config.markers ∧ finder.lister = Gradle.listedModules := by
    rw [ProjectFinder.ofConfig] at hfinder
    cases hexcluded : config.exclusions with
    | error failure => rw [hexcluded] at hfinder; cases hfinder
    | ok excluded => rw [hexcluded] at hfinder; cases hfinder; exact ⟨rfl, rfl⟩
  refine ⟨rfl, hfound.1, hfound.2, rfl, ?_, rfl, rfl⟩
  simp only
  cases hname : config.fileName with
  | none => decide +kernel
  | some pattern =>
    rw [hname, RunConfig.checkPattern] at hpattern
    split at hpattern
    · assumption
    · cases hpattern

/-- A configured executor has everything from its extraction and the configuration, with a pattern
that was checked. -/
theorem IsConfigured.spec (h : IsConfigured extraction config executor) :
    executor.extraction = extraction ∧ executor.finder.markers = config.markers ∧
      executor.finder.lister = Gradle.listedModules ∧
      executor.naming.analysis = extraction.name ∧
      patternFault? executor.naming.pattern = none ∧
      executor.timeoutSeconds = config.timeoutSeconds ∧
      (executor.resolver = none ∨ executor.resolver = some buildRoot?) := by
  cases h with
  | plain hbase =>
    obtain ⟨hextraction, hmarkers, hlister, hanalysis, hpattern, htimeout, hresolver⟩ :=
      of_ofConfig hbase
    exact ⟨hextraction, hmarkers, hlister, hanalysis, hpattern, htimeout, Or.inl hresolver⟩
  | resolving hbase =>
    obtain ⟨hextraction, hmarkers, hlister, hanalysis, hpattern, htimeout, _⟩ := of_ofConfig hbase
    exact ⟨hextraction, hmarkers, hlister, hanalysis, hpattern, htimeout, Or.inr rfl⟩

/-- A corpus is one project, or it is divided as for a batch. -/
theorem projects_eq (executor : Executor π ρ) (tree : FileTree) (corpus : Path) (mode : RunMode) :
    executor.projects tree corpus mode = [.ofDirectory tree corpus] ∨
      executor.projects tree corpus mode = executor.projects tree corpus .batch := by
  rw [projects, ProjectFinder.discover]
  split
  · exact Or.inl rfl
  · right
    rw [projects, ProjectFinder.discover, if_neg (by simp [ProjectFinder.isSingle])]

/-- The projects of a batch have the names of their directories. -/
theorem isEntryName_of_mem_batch (hsound : tree.root.IsSound)
    (h : project ∈ executor.projects tree corpus .batch) : IsEntryName project.name := by
  obtain ⟨name, hname, rfl⟩ := of_mem_batch h
  exact ProjectFinder.isEntryName_of_visible hsound hname

/-- Projects have plain names if the corpus is not the root of the file system. -/
theorem isPlainName_of_mem_projects (hsound : tree.root.IsSound)
    (hcorpus : tree.isDirectory corpus = true) (hroot : tree.canonical corpus ≠ .ok [])
    (h : project ∈ executor.projects tree corpus mode) : IsPlainName project.name := by
  rcases projects_eq executor tree corpus mode with hsingle | hbatch
  · rw [hsingle, List.mem_singleton] at h
    rw [h]
    change IsPlainName (directoryName tree corpus)
    rw [directoryName]
    split
    · rename_i name hname
      exact Path.isPlainName_of_fileName? hname
    · obtain ⟨location, hlocation, hdirectory⟩ := FileTree.location_of_isDirectory hcorpus
      obtain ⟨entry, hentry⟩ := Option.ne_none_iff_exists'.mp
        (FileTree.at?_ne_none_of_isDirectoryAt hdirectory)
      rw [hlocation] at hroot ⊢
      have hne : location ≠ [] := fun heq => hroot (heq ▸ rfl)
      have hlast := (hsound.at? hentry).2 _ (List.getLast_mem hne)
      simpa [List.getLast?_eq_some_getLast hne] using hlast.isPlainName
  · rw [hbatch] at h
    exact (isEntryName_of_mem_batch hsound h).isPlainName

end CorpusFacts.Executor
