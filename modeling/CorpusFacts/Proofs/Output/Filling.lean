import CorpusFacts.Gradle.PropertyEntries
import CorpusFacts.Imports.Imports
import CorpusFacts.Output.Naming
import CorpusFacts.Project.Metrics
import CorpusFacts.Project.ModuleList
import CorpusFacts.Project.Tags
import CorpusFacts.Proofs.Files.PlainNames
import CorpusFacts.Proofs.Text.Replacement

/-!
# Placeholders filled in

The placeholders of a pattern are filled in one kind after the other. Nothing that is filled in has
a slash in it or is made of dots, so the file name has the steps of the pattern, each filled in on
its own, and a step names something exactly where the step of the pattern does. That keeps output
files inside the output directory.
-/

namespace CorpusFacts

/-- The names of the analyses, in the order they run. That of the imports is the same for all
languages and policies. -/
def analysisNames : List String :=
  [(Imports.imports [] ⟨false, false⟩).name, Gradle.dependencies.name, Gradle.plugins.name,
    Gradle.properties.name, moduleList.name, metrics.name, tags.name]

namespace ArtifactNaming

/-- A text with its placeholders filled in, one kind after the other. -/
def fill (naming : ArtifactNaming) (project : String) (text : List Char) : List Char :=
  Text.replace extensionPlaceholder naming.format.extension.toList
    (Text.replace analysisPlaceholder naming.analysis.toList
      (Text.replace projectPlaceholder project.toList text))

variable {naming : ArtifactNaming} {project : String} {step : List Char}

/-- The file name is the pattern, filled in. -/
theorem toList_fileName (naming : ArtifactNaming) (project : String) :
    (naming.fileName project).toList = naming.fill project naming.pattern.toList := by
  rw [fileName, String.toList_ofList, fill]

/-- A placeholder is no step that names nothing, nor part of one. -/
theorem not_isDots_placeholder :
    ¬ IsDots projectPlaceholder ∧ ¬ IsDots analysisPlaceholder ∧ ¬ IsDots extensionPlaceholder := by
  decide

/-- The extensions are plain names. -/
theorem isPlainName_extension (format : OutputFormat) : IsPlainName format.extension := by
  cases format <;> decide

/-- Filling in works step by step. -/
theorem split_fill (hanalysis : IsPlainName naming.analysis) (hproject : IsPlainName project)
    (text : List Char) :
    Text.split '/' (naming.fill project text) =
      (Text.split '/' text).map (naming.fill project) := by
  rw [fill, Text.split_replace (by decide) (by decide) (isPlainName_extension _).noSlash,
    Text.split_replace (by decide) (by decide) hanalysis.noSlash,
    Text.split_replace (by decide) (by decide) hproject.noSlash, List.map_map, List.map_map]
  rfl

/-- The steps of a file name are those of the pattern, filled in. -/
theorem segments_fileName (hanalysis : IsPlainName naming.analysis)
    (hproject : IsPlainName project) :
    (⟨naming.fileName project⟩ : Path).segments =
      (⟨naming.pattern⟩ : Path).segments.map (naming.fill project) := by
  rw [Path.segments, toList_fileName, split_fill hanalysis hproject]
  rfl

/-- Replacing a placeholder by a plain name makes no step that names nothing, and leaves those that
are there. -/
theorem replace_eq_dots_iff {placeholder new text : List Char} (hplaceholder : ¬ IsDots placeholder)
    (hnew : ¬ IsDots new) (hstep : IsDots step) :
    Text.replace placeholder new text = step ↔ text = step := by
  have hne : placeholder ≠ [] := fun heq => hplaceholder (Or.inl heq)
  constructor
  · rintro rfl
    rcases Text.replace_eq_self_or_infix hne new text with hkept | hinfix
    · exact hkept.symm
    · exact absurd (hstep.of_infix hinfix) hnew
  · rintro rfl
    exact Text.replace_of_not_infix (fun h => hplaceholder (hstep.of_infix h)) new

/-- A step that is filled in names nothing exactly where it named nothing before. -/
theorem fill_eq_dots_iff {text : List Char} (hanalysis : IsPlainName naming.analysis)
    (hproject : IsPlainName project) (hstep : IsDots step) :
    naming.fill project text = step ↔ text = step := by
  obtain ⟨hprojectHolder, hanalysisHolder, hextensionHolder⟩ := not_isDots_placeholder
  rw [fill, replace_eq_dots_iff hextensionHolder (isPlainName_extension _).notDots hstep,
    replace_eq_dots_iff hanalysisHolder hanalysis.notDots hstep,
    replace_eq_dots_iff hprojectHolder hproject.notDots hstep]

/-- What is required of a pattern: it is not blank, starts in the output directory, stays there, and
has no unknown placeholders. -/
theorem patternFault?_eq_none_iff {pattern : String} :
    patternFault? pattern = none ↔ Text.trim pattern.toList ≠ [] ∧
      (⟨pattern⟩ : Path).isAbsolute = false ∧
      Path.Component.parent ∉ (⟨pattern⟩ : Path).components ∧
      placeholderFault? none pattern.toList = none := by
  simp only [patternFault?]
  split
  · simp_all
  · split
    · simp_all
    · split <;> simp_all

/-- A file name does not start with a slash if the pattern does not. -/
theorem isAbsolute_fileName (hanalysis : IsPlainName naming.analysis)
    (hproject : IsPlainName project) :
    (⟨naming.fileName project⟩ : Path).isAbsolute = (⟨naming.pattern⟩ : Path).isAbsolute := by
  rw [Bool.eq_iff_iff, Path.isAbsolute, Path.isAbsolute, beq_iff_eq, beq_iff_eq,
    Path.head?_eq_slash_iff, Path.head?_eq_slash_iff, toList_fileName,
    split_fill hanalysis hproject]
  constructor
  · rintro ⟨rest, hrest, hsplit⟩
    obtain ⟨first, others, hpattern, hfirst, rfl⟩ := List.map_eq_cons_iff.mp hsplit
    refine ⟨others, by simpa using hrest, ?_⟩
    rwa [(fill_eq_dots_iff hanalysis hproject (Or.inl rfl)).mp hfirst] at hpattern
  · rintro ⟨rest, hrest, hsplit⟩
    refine ⟨rest.map (naming.fill project), by simpa using hrest, ?_⟩
    rw [hsplit, List.map_cons, (fill_eq_dots_iff hanalysis hproject (Or.inl rfl)).mpr rfl]

/-- A file name leads to a directory around where the pattern does. -/
theorem dots_mem_segments_fileName_iff (hanalysis : IsPlainName naming.analysis)
    (hproject : IsPlainName project) :
    ['.', '.'] ∈ (⟨naming.fileName project⟩ : Path).segments ↔
      ['.', '.'] ∈ (⟨naming.pattern⟩ : Path).segments := by
  rw [segments_fileName hanalysis hproject, List.mem_map]
  constructor
  · rintro ⟨step, hmem, hfill⟩
    rwa [(fill_eq_dots_iff hanalysis hproject (Or.inr (Or.inr rfl))).mp hfill] at hmem
  · intro hmem
    exact ⟨_, hmem, (fill_eq_dots_iff hanalysis hproject (Or.inr (Or.inr rfl))).mpr rfl⟩

/-- The path of an output file behind the output directory: the file name, in a directory named for
the project where the pattern does not have its name. -/
def innerName (naming : ArtifactNaming) (project : String) : String :=
  if Text.occursIn projectPlaceholder naming.pattern.toList then naming.fileName project
  else project ++ "/" ++ naming.fileName project

/-- A path behind the output directory does not start with a slash. -/
theorem head?_innerName (hanalysis : IsPlainName naming.analysis) (hproject : IsPlainName project)
    (hrelative : (⟨naming.pattern⟩ : Path).isAbsolute = false) :
    (naming.innerName project).toList.head? ≠ some '/' := by
  rw [innerName]
  split
  · rw [← isAbsolute_fileName hanalysis hproject] at hrelative
    simpa [Path.isAbsolute] using hrelative
  · obtain ⟨c, rest, hname⟩ := List.exists_cons_of_ne_nil hproject.nonempty
    have := hproject.isInner.head
    simpa [String.toList_append, hname] using this

/-- The path of an output file is the output directory joined to what lies behind it. -/
theorem path_eq_join (hanalysis : IsPlainName naming.analysis) (hproject : IsPlainName project)
    (hrelative : (⟨naming.pattern⟩ : Path).isAbsolute = false) :
    naming.path project = naming.directory.join (naming.innerName project) := by
  rw [path, innerName]
  split
  · rfl
  · rw [← isAbsolute_fileName hanalysis hproject] at hrelative
    exact Path.join_join hproject.isInner (by simpa [Path.isAbsolute] using hrelative)

/-- The steps of the path of an output file behind the output directory. -/
theorem segments_innerName (hanalysis : IsPlainName naming.analysis)
    (hproject : IsPlainName project) :
    (⟨naming.innerName project⟩ : Path).segments =
      (if Text.occursIn projectPlaceholder naming.pattern.toList then [] else [project.toList]) ++
        (⟨naming.pattern⟩ : Path).segments.map (naming.fill project) := by
  rw [← segments_fileName hanalysis hproject, innerName]
  split
  · rw [List.nil_append]
  · have hsplit : Text.split '/' project.toList = [project.toList] :=
      Path.segments_of_noSlash hproject.noSlash
    rw [Path.segments, String.toList_append, String.toList_append, List.append_assoc, ← hsplit]
    exact Text.splitWhere_append (by decide)

/-- No step behind the output directory leads to a directory around. -/
theorem dots_notMem_segments_innerName (hpattern : patternFault? naming.pattern = none)
    (hanalysis : IsPlainName naming.analysis) (hproject : IsPlainName project) :
    ['.', '.'] ∉ (⟨naming.innerName project⟩ : Path).segments := by
  obtain ⟨_, _, hinside, _⟩ := patternFault?_eq_none_iff.mp hpattern
  rw [segments_innerName hanalysis hproject, List.mem_append,
    ← segments_fileName hanalysis hproject, dots_mem_segments_fileName_iff hanalysis hproject,
    ← Path.parent_mem_components_iff]
  rintro (hmem | hmem)
  · split at hmem
    · cases hmem
    · exact hproject.notDots (Or.inr (Or.inr (List.mem_singleton.mp hmem).symm))
  · exact hinside hmem

/-- The names of the analyses are plain. -/
theorem isPlainName_of_mem_analysisNames {analysis : String} (h : analysis ∈ analysisNames) :
    IsPlainName analysis := by
  revert analysis
  decide

/-- Output files stay inside the output directory: the path of an output file is the directory
extended by a relative path that does not lead out of it, however the name of the project and the
pattern fit together. -/
theorem path_stays_inside (naming : ArtifactNaming) (project : String)
    (hpattern : patternFault? naming.pattern = none) (hanalysis : naming.analysis ∈ analysisNames)
    (hproject : IsPlainName project) :
    ∃ inner : String, naming.path project = naming.directory.join inner ∧
      (⟨inner⟩ : Path).isAbsolute = false ∧
      Path.Component.parent ∉ (⟨inner⟩ : Path).components := by
  obtain ⟨_, hrelative, _, _⟩ := patternFault?_eq_none_iff.mp hpattern
  have hplain := isPlainName_of_mem_analysisNames hanalysis
  refine ⟨naming.innerName project, path_eq_join hplain hproject hrelative, ?_, ?_⟩
  · simpa [Path.isAbsolute] using head?_innerName hplain hproject hrelative
  · rw [Path.parent_mem_components_iff]
    exact dots_notMem_segments_innerName hpattern hplain hproject

/-- A project whose name is a placeholder, with a pattern that puts dots around its name. -/
theorem braced_project_stays_inside :
    patternFault? ".\x7bproject\x7d./\x7banalysis\x7d" = none ∧
      "gradle_plugins" ∈ analysisNames ∧ IsPlainName "\x7bext\x7d" ∧
      ∃ inner : String,
        (⟨⟨"out"⟩, ".\x7bproject\x7d./\x7banalysis\x7d", "gradle_plugins", .csv⟩ :
          ArtifactNaming).path "\x7bext\x7d" = (⟨"out"⟩ : Path).join inner ∧
        (⟨inner⟩ : Path).isAbsolute = false ∧
        Path.Component.parent ∉ (⟨inner⟩ : Path).components :=
  ⟨by decide, by decide, by decide,
    path_stays_inside ⟨⟨"out"⟩, ".\x7bproject\x7d./\x7banalysis\x7d", "gradle_plugins", .csv⟩
      "\x7bext\x7d" (by decide) (by decide) (by decide)⟩

end ArtifactNaming

end CorpusFacts
