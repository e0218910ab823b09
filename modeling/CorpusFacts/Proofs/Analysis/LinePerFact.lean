import CorpusFacts.Imports.Imports
import CorpusFacts.Project.Metrics
import CorpusFacts.Project.ModuleList
import CorpusFacts.Proofs.Analysis.Calls
import CorpusFacts.Proofs.Analysis.Distinct
import CorpusFacts.Proofs.Analysis.TextSurvey
import CorpusFacts.Proofs.Gradle.Columns
import CorpusFacts.Proofs.Output.Lines
import CorpusFacts.Proofs.Project.ConservedMetrics
import CorpusFacts.Proofs.Project.UnorderedResults
import CorpusFacts.Proofs.Text.Splitting

/-!
# A line for each fact

Written as lines, the records of a project are one line each as long as no column holds a line feed.
What a column can hold depends on where it is read: tags, numbers, coordinates and the names in
braced sources never hold one, the paths of modules, the identifiers of plugins and the names in
Python sources do where they are spelled with one, and properties do where an escape stands for one.
-/

/-! ## Columns of imports

A directive of a source with braces gives words without blanks, so the name of its import is one
line. Names in Python sources are not cut into words, so they may go over several. -/

namespace CorpusFacts.Imports

variable {unit : SourceUnit} {languages : List ImportLanguage} {name : String}

theorem withoutStar_subset (text : List Char) : withoutStar text ⊆ text := by
  have hplain :
      (if ".*".toList.isSuffixOf text then text.take (text.length - 2) else text) ⊆ text := by
    split
    · exact List.take_subset ..
    · exact List.Subset.refl text
  intro c hc
  rw [withoutStar, Text.dropEndWhile, List.mem_reverse] at hc
  exact hplain (List.mem_reverse.mp (List.dropWhile_subset _ hc))

/-- A name in a directive is made of words, so it is one line. -/
theorem feed_notMem_directiveName? {keyword : String} {text name : List Char}
    (h : directiveName? keyword text = some name) : '\n' ∉ name := by
  simp only [directiveName?, Option.bind_eq_bind, Option.bind_eq_some_iff] at h
  obtain ⟨body, -, h⟩ := h
  split at h
  · cases h
  · obtain rfl := Option.some.inj h
    intro hmem
    have hmem := List.mem_of_mem_filter (withoutStar_subset _ hmem)
    obtain ⟨word, hword, hmem⟩ := List.mem_flatten.mp hmem
    have hwords : word ∈ Text.words (Text.dropEndWhile (· == ';') (Text.trim body)) := by
      have htake := List.takeWhile_subset _ hword
      split at htake
      · exact List.drop_subset _ _ htake
      · exact htake
    have hplain := Text.not_separator_of_mem_splitWhere (List.mem_of_mem_filter hwords) _ hmem
    exact absurd hplain (by decide)

theorem mem_names_iff {findings : Findings ImportFact} :
    name ∈ names findings.values ↔ ∃ list, .imports list ∈ findings.contents ∧ name ∈ list := by
  simp only [names, List.mem_flatMap, Findings.contents, List.mem_map]
  constructor
  · rintro ⟨found, hfound, hmem⟩
    split at hmem
    · cases hmem
    · rename_i list hvalue
      exact ⟨list, ⟨found, hfound, hvalue⟩, hmem⟩
  · rintro ⟨list, ⟨found, hfound, hvalue⟩, hmem⟩
    exact ⟨found, hfound, by rwa [hvalue]⟩

/-- What is imported by a directive of a source with braces is one line. -/
theorem isOneLine_of_braced {analyzer : Analyzer Unit ImportFact} {node : Node}
    {list : List String} (hanalyzer : ∃ kind, analyzer = packageAnalyzer kind ∨
      analyzer = importAnalyzer kind)
    (h : analyzer.analyze unit () node = .ok (some (.imports list))) :
    ∀ name ∈ list, IsOneLine name := by
  obtain ⟨kind, rfl | rfl⟩ := hanalyzer
  · simp only [packageAnalyzer] at h
    split at h <;> cases h
  · simp only [importAnalyzer] at h
    split at h
    · rename_i found hfound
      cases h
      have hline : IsOneLine (String.ofList found) := by
        rw [IsOneLine, String.toList_ofList]
        exact feed_notMem_directiveName? hfound
      simpa using hline
    · cases h

/-- The names that are imported by a source with braces are one line each. -/
theorem isOneLine_of_mem_importsOf (hlanguage : unit.language ≠ .python)
    (h : name ∈ names (importsOf languages unit).values) : IsOneLine name := by
  obtain ⟨list, hlist, hmem⟩ := mem_names_iff.mp h
  unfold importsOf at hlist
  split at hlist
  · cases hlist
  · rename_i language hof
    split at hlist
    · obtain ⟨node, -, analyzer, hanalyzer, _, hvalue⟩ := Survey.exists_of_mem_collect hlist
      refine isOneLine_of_braced ?_ (Analyzer.value?_eq_some_iff.mp hvalue).2 name hmem
      cases language with
      | kotlin =>
        rcases List.mem_pair.mp hanalyzer with hpackage | himport
        · exact ⟨_, Or.inl hpackage⟩
        · exact ⟨_, Or.inr himport⟩
      | java =>
        rcases List.mem_pair.mp hanalyzer with hpackage | himport
        · exact ⟨_, Or.inl hpackage⟩
        · exact ⟨_, Or.inr himport⟩
      | python =>
        revert hof hlanguage
        cases unit.language <;> simp [ImportLanguage.ofLanguage?]
    · cases hlist

/-- Every import that is kept was found. -/
theorem name_mem_of_mem_aggregate {policy : ImportPolicy} {findings : List (Finding ImportFact)}
    {record : ImportRecord} (h : record ∈ (importAggregator policy).aggregate findings) :
    record.name ∈ names findings := by
  obtain ⟨name, hname, rfl⟩ := List.mem_map.mp h
  split at hname
  · exact List.mem_of_mem_filter (mem_firstOccurrences.mp hname)
  · exact List.mem_of_mem_filter hname

/-- Imports are a line for each if the names that are kept from Python sources are one line each. -/
theorem linePerRecord_imports_iff {policy : ImportPolicy} {units : List SourceUnit}
    {records : List ImportRecord}
    (hrecords : records = (importAggregator policy).aggregate
      (Findings.join (units.map (importsOf languages))).values) :
    LinePerRecord records ↔ ∀ unit ∈ units, unit.language = .python →
      ∀ name ∈ names (importsOf languages unit).values, ⟨name⟩ ∈ records → IsOneLine name := by
  have hfound : ∀ record ∈ records,
      ∃ unit ∈ units, record.name ∈ names (importsOf languages unit).values := by
    intro record hrecord
    obtain ⟨list, hlist, hname⟩ :=
      mem_names_iff.mp (name_mem_of_mem_aggregate (hrecords ▸ hrecord))
    obtain ⟨unit, hunit, hmem⟩ := Findings.mem_contents_join.mp hlist
    exact ⟨unit, hunit, mem_names_iff.mpr ⟨list, hmem, hname⟩⟩
  rw [linePerRecord_iff]
  constructor
  · intro h unit _ _ name _ hrecord
    exact h ⟨name⟩ hrecord name (List.mem_singleton_self name)
  · intro h record hrecord column hcolumn
    obtain rfl : column = record.name := List.mem_singleton.mp hcolumn
    obtain ⟨unit, hunit, hname⟩ := hfound record hrecord
    by_cases hlanguage : unit.language = .python
    · exact h unit hunit hlanguage record.name hname hrecord
    · exact isOneLine_of_mem_importsOf hlanguage hname

end CorpusFacts.Imports

/-! ## What records are read -/

namespace CorpusFacts

/-- The records of a project from the files that were read. -/
def Extraction.recordsOf (extraction : Extraction π ρ) (project : Project)
    (units : List SourceUnit) : Except Crash (List ρ) :=
  extraction.aggregate project (Findings.join (units.map extraction.collect)).values

/-! ## Columns of projects -/

/-- Tags take up one line. -/
theorem linePerRecord_tags (tag : ProjectTag) : LinePerRecord [(⟨[tag]⟩ : TagsRecord)] := by
  rw [linePerRecord_iff]
  cases tag <;> decide

/-- A list of modules is a line for each if every module path is one line. -/
theorem linePerRecord_modules_iff {modules : List Module} :
    LinePerRecord (modules.map fun module => (⟨module.relative⟩ : ModuleRecord)) ↔
      ∀ module ∈ modules, IsOneLine module.relative := by
  simp [linePerRecord_iff, Record.columns]

/-- There is a row for every module, with its path. -/
theorem map_module_metricsRows (findings : List (Finding FileMetrics)) (modules : List String) :
    (metricsRows findings modules).map (·.module) = modules :=
  map_module_takeRows _ modules

/-- The size of modules is a line for each if every module path is one line. -/
theorem linePerRecord_metrics_iff {findings : List (Finding FileMetrics)} {modules : List String} :
    LinePerRecord (metricsRows findings modules) ↔ ∀ module ∈ modules, IsOneLine module := by
  have hcolumns (record : MetricsRecord) :
      (∀ column ∈ Record.columns record, IsOneLine column) ↔ IsOneLine record.module := by
    simp [Record.columns, isOneLine_repr]
  conv_rhs => rw [← map_module_metricsRows findings modules, List.forall_mem_map]
  rw [linePerRecord_iff]
  exact forall₂_congr fun record _ => hcolumns record

/-! ## Records of a project -/

/-- Which records of a project take up a line each when they are written as lines. Tags always do.
Dependencies, modules and sizes do as long as the paths of modules are one line each. The version of
a plugin is always one line, and so are its identifier and arguments where statements are.
Properties do as long as, besides, no escape in a key or a value stands for a line feed, and imports
as long as the names that are kept from Python sources are one line each. -/
theorem line_per_record_iff (project : Project) (units : List SourceUnit) :
    (∃ records, tags.recordsOf project units = .ok records ∧ LinePerRecord records) ∧
    (∃ records, moduleList.recordsOf project units = .ok records ∧
      (LinePerRecord records ↔ ∀ module ∈ project.modules, IsOneLine module.relative)) ∧
    (∃ records, metrics.recordsOf project units = .ok records ∧
      (LinePerRecord records ↔ ∀ module ∈ project.modules, IsOneLine module.relative)) ∧
    (∃ records, Gradle.dependencies.recordsOf project units = .ok records ∧
      (LinePerRecord records ↔
        ∀ unit ∈ units, (Gradle.dependenciesOf unit).values ≠ [] → IsOneLine unit.module)) ∧
    (∃ records, Gradle.plugins.recordsOf project units = .ok records ∧
      (LinePerRecord records ↔ ∀ record ∈ records,
        IsOneLine record.module ∧ IsOneLine record.id ∧ ∀ arg ∈ record.args, IsOneLine arg) ∧
      ∀ record ∈ records, (IsOneLine record.id ∧ ∀ arg ∈ record.args, IsOneLine arg) ∨
        ∃ unit ∈ units, ∃ node ∈ unit.preorder,
          node.kind = .statement ∧ '\n' ∈ unit.text node) ∧
    (∃ records, Gradle.properties.recordsOf project units = .ok records ∧
      (LinePerRecord records ↔ ∀ unit ∈ units, ∀ entry ∈ Gradle.writtenEntries unit,
        IsOneLine unit.module ∧ Properties.escapesFeed entry.1 = false ∧
          Properties.escapesFeed entry.2 = false)) ∧
    ∀ languages policy, ∃ records,
      (Imports.imports languages policy).recordsOf project units = .ok records ∧
      (LinePerRecord records ↔ ∀ unit ∈ units, unit.language = .python →
        ∀ name ∈ Imports.names (Imports.importsOf languages unit).values,
          ⟨name⟩ ∈ records → IsOneLine name) := by
  refine ⟨?_, ⟨_, rfl, linePerRecord_modules_iff⟩, ?_,
    ⟨_, rfl, Gradle.linePerRecord_dependencies_iff⟩,
    ⟨_, rfl, Gradle.linePerRecord_plugins_iff,
      fun record hrecord => (Gradle.isOneLine_of_mem_mergePlugins hrecord).2⟩,
    ⟨_, rfl, Gradle.linePerRecord_properties_iff⟩,
    fun languages policy => ⟨_, rfl, Imports.linePerRecord_imports_iff rfl⟩⟩
  · obtain ⟨tag, htag⟩ := exists_classify_eq
      ((Findings.join (units.map tags.collect)).values.map (·.value))
    exact ⟨_, rfl, htag ▸ linePerRecord_tags tag⟩
  · refine ⟨_, rfl, linePerRecord_metrics_iff.trans ?_⟩
    rw [List.forall_mem_cons, List.forall_mem_map]
    exact and_iff_right (by decide)

/-- A properties file with one entry, whose value has an escape for a line feed: there is one
record, and written as lines it takes up two. -/
theorem escaped_feed_takes_two_lines :
    let record : Gradle.PropertyRecord := ⟨".", "a", "x\ny"⟩
    ∃ unit, SourceUnit.ofText ⟨"gradle.properties"⟩ "a=x\\ny\n".toList = .ok unit ∧
      Gradle.properties.recordsOf (.ofRoot "p" ⟨"p"⟩) [unit] = .ok [record] ∧
      renderRecords .lines [record] = ".,a,x\ny\n" ∧ ¬ LinePerRecord [record] := by
  intro record
  obtain ⟨unit, hunit, hcontents⟩ : ∃ unit,
      SourceUnit.ofText ⟨"gradle.properties"⟩ "a=x\\ny\n".toList = .ok unit ∧
        (Gradle.propertiesOf unit).contents = [record] :=
    SourceUnit.exists_of_map (by decide +kernel)
  have hjoin : Findings.join ([unit].map Gradle.propertiesOf) = Gradle.propertiesOf unit :=
    Findings.append_empty _
  refine ⟨unit, hunit, ?_, by decide, ?_⟩
  · calc Gradle.properties.recordsOf (.ofRoot "p" ⟨"p"⟩) [unit]
        = .ok (Findings.join ([unit].map Gradle.propertiesOf)).contents := rfl
      _ = .ok [record] := by rw [hjoin, hcontents]
  · rw [linePerRecord_iff]
    decide

end CorpusFacts
