import CorpusFacts.Gradle.PropertyEntries
import CorpusFacts.Proofs.Analysis.Calls
import CorpusFacts.Proofs.Gradle.PluginParts
import CorpusFacts.Proofs.Output.Lines
import CorpusFacts.Proofs.Project.UnorderedResults
import CorpusFacts.Proofs.Properties.LineFeeds

/-!
# Columns of build files

Which columns of dependencies, plugins and properties hold a line feed. Coordinates are read off a
text without blanks, so only the module of a dependency can have one. Identifiers and arguments of a
plugin have one only where its statement has, and keys and values of properties where an escape
stands for one.
-/

namespace CorpusFacts

theorem Text.feed_notMem_compact (text : List Char) : '\n' ∉ compact text := by
  intro hmem
  exact absurd (List.mem_filter.mp hmem).2 (by decide)

namespace Gradle

variable {unit : SourceUnit}

/-! ## Dependencies -/

/-- The columns of declared coordinates are the module and texts on one line. -/
theorem Coordinates.DeclaredIn.columns {text : List Char} {coordinates : Coordinates}
    (h : coordinates.DeclaredIn (Text.compact text)) (module : String) (isForAllProjects : Bool) :
    ∀ column ∈ Record.columns (coordinates.record module isForAllProjects),
      column = module ∨ IsOneLine column := by
  have hpart {part : List Char} (hpart : part ⊆ kotlinText ++ Text.compact text) :
      IsOneLine (String.ofList part) := by
    rw [IsOneLine, String.toList_ofList]
    intro hmem
    rcases List.mem_append.mp (hpart hmem) with hmem | hmem
    · exact absurd hmem (by decide)
    · exact Text.feed_notMem_compact text hmem
  have hconfiguration : ∀ configuration ∈ configurations, IsOneLine configuration := by decide
  have hversion : IsOneLine ((coordinates.version.map String.ofList).getD "-") := by
    cases hversion : coordinates.version with
    | none => decide
    | some version => exact hpart (h.parts.version version hversion)
  intro column hcolumn
  simp only [Record.columns, record, List.mem_cons, List.not_mem_nil, or_false] at hcolumn
  rcases hcolumn with rfl | rfl | rfl | rfl | rfl | rfl
  · exact Or.inl rfl
  · exact Or.inr (hconfiguration _ h.configuration)
  · exact Or.inr (hpart h.parts.group)
  · exact Or.inr (hpart h.parts.artifact)
  · exact Or.inr hversion
  · exact Or.inr (isOneLine_truthText isForAllProjects)

/-- A dependency that is found in a file is declared in a text of it, for its module. -/
theorem exists_of_mem_dependenciesOf {record : DependencyRecord}
    (h : record ∈ (dependenciesOf unit).contents) :
    ∃ text, ∃ coordinates : Coordinates, ∃ isForAllProjects,
      coordinates.DeclaredIn (Text.compact text) ∧
        record = coordinates.record unit.module isForAllProjects := by
  have hcollect : record ∈ ((dependencySurvey.collect unit).flatMap id).contents := by
    unfold dependenciesOf at h
    split at h
    · exact h
    · exact h
    · cases h
  rw [Findings.contents_flatMap] at hcollect
  obtain ⟨records, hrecords, hmem⟩ := List.mem_flatMap.mp hcollect
  obtain ⟨node, -, analyzer, hanalyzer, context, hvalue⟩ := Survey.exists_of_mem_collect hrecords
  obtain rfl : analyzer = dependencyAnalyzer := List.mem_singleton.mp hanalyzer
  obtain ⟨-, hanalyze⟩ := Analyzer.value?_eq_some_iff.mp hvalue
  simp only [dependencyAnalyzer] at hanalyze
  -- there is a value only in a block of dependencies, at a text that declares some
  split at hanalyze
  · cases hanalyze
  · split at hanalyze
    · cases hanalyze
    · rename_i text _
      split at hanalyze
      · cases hanalyze
      · cases hanalyze
      · rename_i list _ hlist
        cases hanalyze
        obtain ⟨coordinates, hcoordinates, rfl⟩ := List.mem_map.mp hmem
        exact ⟨text, coordinates, _, declaration_declaredIn hlist coordinates hcoordinates, rfl⟩

/-- Dependencies are a line for each if the files that they are found in belong to modules with a
path on one line. -/
theorem linePerRecord_dependencies_iff {units : List SourceUnit} :
    LinePerRecord
        (dependencyAggregator.aggregate (Findings.join (units.map dependenciesOf)).values) ↔
      ∀ unit ∈ units, (dependenciesOf unit).values ≠ [] → IsOneLine unit.module := by
  have hrecords (record : DependencyRecord) :
      record ∈ dependencyAggregator.aggregate (Findings.join (units.map dependenciesOf)).values ↔
        ∃ unit ∈ units, record ∈ (dependenciesOf unit).contents := by
    rw [mem_aggregate_dependencies, ← List.mem_map]
    exact Findings.mem_contents_join
  rw [linePerRecord_iff]
  constructor
  · intro h unit hunit hne
    obtain ⟨found, hfound⟩ := List.exists_mem_of_ne_nil _ hne
    have hmem : found.value ∈ (dependenciesOf unit).contents := List.mem_map_of_mem hfound
    obtain ⟨_, coordinates, _, -, hvalue⟩ := exists_of_mem_dependenciesOf hmem
    have hcolumns := h found.value ((hrecords _).mpr ⟨unit, hunit, hmem⟩)
    rw [hvalue] at hcolumns
    exact hcolumns unit.module (List.mem_cons_self ..)
  · intro h record hrecord column hcolumn
    obtain ⟨unit, hunit, hmem⟩ := (hrecords record).mp hrecord
    obtain ⟨text, coordinates, isForAllProjects, hdeclared, rfl⟩ :=
      exists_of_mem_dependenciesOf hmem
    rcases hdeclared.columns unit.module isForAllProjects column hcolumn with rfl | hline
    · refine h unit hunit fun hnil => ?_
      rw [Findings.contents, hnil] at hmem
      cases hmem
    · exact hline

/-! ## Plugins -/

theorem firstOfEachKey_subset (found : List PluginRecord) : firstOfEachKey found ⊆ found := by
  induction found with
  | nil => exact List.Subset.refl []
  | cons first rest ih =>
    rw [firstOfEachKey]
    exact List.cons_subset_cons first (List.Subset.trans (List.filter_subset_self _) ih)

/-- A plugin that is kept was found, as far as it is not a matter of all projects. -/
theorem exists_of_mem_mergePlugins {found : List PluginRecord} {record : PluginRecord}
    (h : record ∈ mergePlugins found) : ∃ other ∈ found, other.module = record.module ∧
      other.id = record.id ∧ other.version = record.version ∧ other.args = record.args := by
  obtain ⟨other, hother, rfl⟩ := List.mem_map.mp h
  exact ⟨other, firstOfEachKey_subset found hother, rfl, rfl, rfl, rfl⟩

/-- A plugin that is found in a file is named by a statement of it. -/
theorem exists_of_mem_pluginsOf {record : PluginRecord} (h : record ∈ (pluginsOf unit).contents) :
    ∃ node ∈ unit.preorder, node.kind = .statement ∧ ∃ entry : PluginEntry, ∃ isForAllProjects,
      entry.NamedIn (unit.text node) ∧ record = entry.record unit.module isForAllProjects := by
  have hcollect : record ∈ (pluginSurvey.collect unit).contents := by
    unfold pluginsOf at h
    split at h
    · exact h
    · exact h
    · cases h
  obtain ⟨node, hnode, analyzer, hanalyzer, context, hvalue⟩ :=
    Survey.exists_of_mem_collect hcollect
  obtain rfl : analyzer = pluginAnalyzer := List.mem_singleton.mp hanalyzer
  obtain ⟨hkind, hanalyze⟩ := Analyzer.value?_eq_some_iff.mp hvalue
  refine ⟨node, hnode, List.mem_singleton.mp hkind, ?_⟩
  simp only [pluginAnalyzer] at hanalyze
  split at hanalyze
  · cases hanalyze
  · rename_i entry hentry
    obtain ⟨entry, rfl, rfl⟩ := Option.map_eq_some_iff.mp (Except.ok.inj hanalyze)
    have htext := Text.trim_subset (List.Subset.refl (unit.text node))
    exact ⟨entry, _, pluginIn_namedIn hentry htext, rfl⟩

/-- A text with separators is one line if its parts are. -/
theorem isOneLine_intercalate_iff {parts : List String} :
    IsOneLine ("#".intercalate parts) ↔ ∀ part ∈ parts, IsOneLine part := by
  have hseparator : "#".toList = ['#'] := rfl
  rw [IsOneLine, String.toList_intercalate, hseparator, Text.notMem_intercalate_iff (by decide),
    List.forall_mem_map]
  rfl

/-- The version of a plugin is one line, wherever the plugin is named. Its identifier and its
arguments are, where the statement that names it is. -/
theorem isOneLine_of_mem_pluginsOf {record : PluginRecord}
    (h : record ∈ (pluginsOf unit).contents) :
    IsOneLine (record.version.getD "") ∧
      ((IsOneLine record.id ∧ ∀ arg ∈ record.args, IsOneLine arg) ∨
        ∃ node ∈ unit.preorder, node.kind = .statement ∧ '\n' ∈ unit.text node) := by
  obtain ⟨node, hnode, hkind, entry, isForAllProjects, hnamed, rfl⟩ := exists_of_mem_pluginsOf h
  constructor
  · cases hversion : entry.version with
    | none => simp [PluginEntry.record, hversion, IsOneLine]
    | some version =>
      simpa [PluginEntry.record, hversion, IsOneLine] using hnamed.version version hversion
  · by_cases hline : '\n' ∈ unit.text node
    · exact Or.inr ⟨node, hnode, hkind, hline⟩
    · have hid : '\n' ∉ entry.id := fun hmem => by
        rcases List.mem_append.mp (hnamed.id hmem) with hmem | hmem
        · exact absurd hmem (by decide)
        · exact hline hmem
      have hargs : ∀ arg ∈ entry.args, '\n' ∉ arg := fun arg harg hmem =>
        hline (hnamed.args arg harg hmem)
      exact Or.inl (by simpa [PluginEntry.record, IsOneLine] using And.intro hid hargs)

/-- The same goes for the plugins that are kept of some files. -/
theorem isOneLine_of_mem_mergePlugins {units : List SourceUnit} {record : PluginRecord}
    (h : record ∈ mergePlugins (Findings.join (units.map pluginsOf)).contents) :
    IsOneLine (record.version.getD "") ∧
      ((IsOneLine record.id ∧ ∀ arg ∈ record.args, IsOneLine arg) ∨
        ∃ unit ∈ units, ∃ node ∈ unit.preorder,
          node.kind = .statement ∧ '\n' ∈ unit.text node) := by
  obtain ⟨other, hother, -, hid, hversion, hargs⟩ := exists_of_mem_mergePlugins h
  obtain ⟨unit, hunit, hmem⟩ := Findings.mem_contents_join.mp hother
  rw [← hid, ← hversion, ← hargs]
  exact (isOneLine_of_mem_pluginsOf hmem).imp_right
    (Or.imp_right fun hline => ⟨unit, hunit, hline⟩)

/-- Plugins are a line for each if their modules, identifiers and arguments are one line each. -/
theorem linePerRecord_plugins_iff {units : List SourceUnit} :
    LinePerRecord (mergePlugins (Findings.join (units.map pluginsOf)).contents) ↔
      ∀ record ∈ mergePlugins (Findings.join (units.map pluginsOf)).contents,
        IsOneLine record.module ∧ IsOneLine record.id ∧ ∀ arg ∈ record.args, IsOneLine arg := by
  rw [linePerRecord_iff]
  refine forall₂_congr fun record hrecord => ?_
  have hversion := (isOneLine_of_mem_mergePlugins hrecord).1
  simp [Record.columns, hversion, isOneLine_intercalate_iff, isOneLine_truthText]

/-! ## Properties -/

/-- The keys and values in a file that set a property, with their escapes. -/
def writtenEntries (unit : SourceUnit) : List (List Char × List Char) :=
  match unit.language with
  | .properties =>
    ((unit.preorder.filter (·.kind == .property)).map fun node =>
      Properties.writtenEntry (unit.text node)).filter fun entry =>
        !(Properties.unescape entry.1).isEmpty
  | _ => []

/-- The property that a key and a value set in a module. -/
def setting (module : String) (entry : List Char × List Char) : PropertyRecord :=
  ⟨module, String.ofList (Properties.unescape entry.1),
    String.ofList (Properties.unescape entry.2)⟩

/-- A property is found where there is a key. -/
theorem value?_propertyAnalyzer (node : Node) :
    propertyAnalyzer.value? unit () node =
      if node.kind == .property &&
          !(Properties.unescape (Properties.writtenEntry (unit.text node)).1).isEmpty then
        some (setting unit.module (Properties.writtenEntry (unit.text node)))
      else none := by
  have hanalyze : propertyAnalyzer.analyze unit () node =
      if (Properties.unescape (Properties.writtenEntry (unit.text node)).1).isEmpty then
        .error "property without key"
      else .ok (some (setting unit.module (Properties.writtenEntry (unit.text node)))) := rfl
  have hkinds : propertyAnalyzer.kinds.contains node.kind = (node.kind == .property) :=
    Bool.or_false _
  rw [Analyzer.value?, hanalyze, hkinds]
  cases node.kind == .property
  · rfl
  · cases (Properties.unescape (Properties.writtenEntry (unit.text node)).1).isEmpty <;> rfl

/-- The properties found in a file are those that its keys and values set, in order. -/
theorem contents_propertiesOf (unit : SourceUnit) :
    (propertiesOf unit).contents = (writtenEntries unit).map (setting unit.module) := by
  have hsurvey (nodes : List Node) :
      nodes.flatMap (fun node => (propertyAnalyzer.value? unit () node).toList) =
        (((nodes.filter (·.kind == .property)).map fun node =>
          Properties.writtenEntry (unit.text node)).filter fun entry =>
            !(Properties.unescape entry.1).isEmpty).map (setting unit.module) := by
    induction nodes with
    | nil => rfl
    | cons node nodes ih =>
      rw [List.flatMap_cons, ih, value?_propertyAnalyzer]
      cases hkind : node.kind == .property with
      | false => simp [hkind]
      | true =>
        cases hkey :
            (Properties.unescape (Properties.writtenEntry (unit.text node)).1).isEmpty <;>
          simp [hkind, hkey]
  unfold propertiesOf writtenEntries
  cases unit.language with
  | properties =>
    rw [Survey.contents_collect, ← hsurvey]
    simp only [propertySurvey, List.flatMap_singleton]
  | _ => rfl

/-- What a key and a value set is one line if the module is and no escape stands for a line feed. -/
theorem columns_setting_iff {entry : List Char × List Char} (h : entry ∈ writtenEntries unit) :
    (∀ column ∈ Record.columns (setting unit.module entry), IsOneLine column) ↔
      IsOneLine unit.module ∧ Properties.escapesFeed entry.1 = false ∧
        Properties.escapesFeed entry.2 = false := by
  obtain ⟨text, rfl⟩ : ∃ text, Properties.writtenEntry text = entry := by
    unfold writtenEntries at h
    split at h
    · obtain ⟨node, -, rfl⟩ := List.mem_map.mp (List.mem_of_mem_filter h)
      exact ⟨unit.text node, rfl⟩
    · cases h
  obtain ⟨hkey, hvalue⟩ := Properties.feed_notMem_splitEntry_iff text
  rw [← hkey, ← hvalue]
  simp [Record.columns, setting, IsOneLine, Properties.splitEntry_eq]

/-- Properties are a line for each if their modules are one line each and no escape in a key or a
value stands for a line feed. -/
theorem linePerRecord_properties_iff {units : List SourceUnit} :
    LinePerRecord (Findings.join (units.map propertiesOf)).contents ↔
      ∀ unit ∈ units, ∀ entry ∈ writtenEntries unit,
        IsOneLine unit.module ∧ Properties.escapesFeed entry.1 = false ∧
          Properties.escapesFeed entry.2 = false := by
  simp only [linePerRecord_iff, Findings.contents_join, List.flatMap_map, List.forall_mem_flatMap,
    contents_propertiesOf, List.forall_mem_map]
  exact forall₂_congr fun unit _ => forall₂_congr fun _ => columns_setting_iff

end Gradle

end CorpusFacts
