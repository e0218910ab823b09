import CorpusFacts.Gradle.PropertyEntries
import CorpusFacts.Proofs.Analysis.Distinct
import CorpusFacts.Proofs.Analysis.ScriptFacts
import CorpusFacts.Proofs.Gradle.LineEndings
import CorpusFacts.Proofs.Properties.LineEndings
import CorpusFacts.Proofs.Script.Balance
import CorpusFacts.Proofs.Script.LineEndings
import CorpusFacts.Syntax.Parse

/-!
# The facts of files with other line ends

With a carriage return before each line feed a file has a tree of the same shape, with the same
texts at its nodes but for the line ends in them. Imports, dependencies and properties are read past
line ends. Plugins and modules are named by texts that are cut out as they stand, so line ends in a
name stay there.
-/

namespace CorpusFacts

open Text

namespace TextSurvey

variable {κ α : Type} {reading : TextSurvey κ α}

/-- With carriage returns in all texts a reading keeps its contexts and changes each fact in a given
way. -/
structure WithReturns (reading : TextSurvey κ α) (change : α → α) : Prop where
  /-- Nodes are entered as before. -/
  enter : ∀ text node context,
    reading.enter (withReturns ∘ text) node context = reading.enter text node context
  /-- Each fact is changed. -/
  factsAt : ∀ text context node,
    reading.factsAt (withReturns ∘ text) context node =
      (reading.factsAt text context node).map change

namespace WithReturns

variable {change : α → α}

/-- On a way through a tree each fact is changed. -/
theorem along (h : reading.WithReturns change) (text : Node → List Char) (context : κ)
    (visits : List Visit) :
    reading.along (withReturns ∘ text) context visits =
      (reading.along text context visits).map change := by
  induction visits generalizing context with
  | nil => rfl
  | cons visit visits ih =>
    cases visit with
    | enter node =>
      rw [TextSurvey.along, TextSurvey.along, h.enter, h.factsAt, ih, List.map_append]
    | leave node => rw [TextSurvey.along, TextSurvey.along, ih]

/-- Files whose nodes lie at the same places hold the same facts, each of them changed. -/
theorem facts_eq (h : reading.WithReturns change) (hreading : reading.GoesByAllTexts)
    {unit twin : SourceUnit} (hsource : twin.source = withReturns unit.source)
    (hnodes : Node.AllAlike (Node.SameRange unit.source) [unit.root] [twin.root]) :
    reading.facts twin.text twin.root = (reading.facts unit.text unit.root).map change := by
  have hsame : Node.AllAlike (fun node other => other.kind = node.kind ∧
      twin.text other = (withReturns ∘ unit.text) node) [unit.root] [twin.root] := by
    refine hnodes.imp fun node other hrange => ⟨hrange.kind, ?_⟩
    rw [SourceUnit.text, hsource]
    exact hrange.start.sliceBytes_eq hrange.stop
  rw [facts, facts, Node.visits_eq, Node.visits_eq, hreading.along_alike hsame, h.along]

end WithReturns

end TextSurvey

namespace Imports

/-- A directive names the same. -/
theorem directiveName?_withReturns {keyword : String} (hbreak : '\n' ∉ keyword.toList)
    (hreturn : '\r' ∉ keyword.toList) (text : List Char) :
    directiveName? keyword (withReturns text) = directiveName? keyword text := by
  have hwords (body : List Char) : nameWords (withReturns body) = nameWords body := by
    simp only [nameWords, words_withReturns]
  have hend := @dropEndWhile_withReturns (· == ';') (by decide)
  simp only [directiveName?, trim_withReturns, after?_withReturns hbreak hreturn, hend, hwords,
    Option.bind_eq_bind, Option.bind_map, Function.comp_def]

/-- Imports are the same with carriage returns. -/
theorem importTexts_withReturns : importTexts.WithReturns id := by
  have himport := @directiveName?_withReturns "import" (by decide) (by decide)
  have hpackage := @directiveName?_withReturns "package" (by decide) (by decide)
  refine ⟨fun _ _ _ => rfl, fun text context node => ?_⟩
  simp only [importTexts, Function.comp_apply, himport, hpackage, List.map_id]

end Imports

namespace Gradle

/-- The context inside a block is the same. -/
theorem enterBlock_withReturns (text : Node → List Char) (node : Node) (context : BlockContext) :
    enterBlock (withReturns ∘ text) node context = enterBlock text node context := by
  have hname : (blockNameBy (withReturns ∘ text) node).bind Block.ofName? =
      (blockNameBy text node).bind Block.ofName? := by
    simp only [blockNameBy, Option.bind_map, Option.bind_assoc, Function.comp_def,
      nameOfHeader_withReturns, ofName?_withReturns]
  rw [enterBlock, enterBlock, hname]

/-- Dependencies are the same with carriage returns. -/
theorem dependencyTexts_withReturns (module : String) :
    (dependencyTexts module).WithReturns id := by
  refine ⟨enterBlock_withReturns, fun text context node => ?_⟩
  have hdeclared (text : List Char) :
      declaredBy module context.isForAllProjects (withReturns text) =
        declaredBy module context.isForAllProjects text := by
    rw [declaredBy, declaredBy, declaration_withReturns]
  have htext : declaringTextBy? (withReturns ∘ text) node =
      (declaringTextBy? text node).map withReturns := by
    rw [declaringTextBy?, declaringTextBy?, ← Option.map_map]
    split <;> rfl
  rw [List.map_id]
  simp only [dependencyTexts, htext]
  cases declaringTextBy? text node with
  | none => rfl
  | some text => simp only [Option.map_some, Option.toList_some, List.flatMap_singleton, hdeclared]

/-- A plugin keeps the line ends in what names it. -/
theorem namedBy_withReturns (module : String) (context : BlockContext) (text : List Char) :
    namedBy module context (withReturns text) =
      (namedBy module context text).map PluginRecord.returned := by
  have hplugin := pluginIn_withReturns context.current (trim text)
  rw [namedBy, namedBy, trim_withReturns]
  cases hfound : pluginIn context.current (trim text) with
  | error error =>
    cases hother : pluginIn context.current (withReturns (trim text)) with
    | error other => rfl
    | ok other => simp [hfound, hother, Except.toOption] at hplugin
  | ok found =>
    cases hother : pluginIn context.current (withReturns (trim text)) with
    | error other => simp [hfound, hother, Except.toOption] at hplugin
    | ok other =>
      obtain rfl : other = found.map PluginEntry.returned := by
        simpa [hfound, hother, Except.toOption] using hplugin
      cases found with
      | none => rfl
      | some entry => simp [record_returned]

/-- Plugins are the same with carriage returns, but for those in what names them. -/
theorem pluginTexts_withReturns (module : String) :
    (pluginTexts module).WithReturns PluginRecord.returned := by
  refine ⟨enterBlock_withReturns, fun text context node => ?_⟩
  simp only [pluginTexts, Function.comp_apply, namedBy_withReturns]
  split <;> rfl

/-- A directory keeps the line ends in what names it. -/
theorem includedBy_withReturns (text : List Char) :
    includedBy (withReturns text) = (includedBy text).map Text.returned := by
  have hliterals := literalTexts_withReturns (Nat.le_refl (trim text).length)
    (Nat.le_refl (withReturns (trim text)).length)
  rw [includedBy, includedBy, trim_withReturns, isInclude_withReturns]
  split
  · rw [hliterals, List.filterMap_map, List.map_map]
    simp only [Function.comp_def, moduleDirectory?_withReturns, returned_ofList]
    rw [← List.map_filterMap, List.map_map]
    rfl
  · rfl

/-- Included directories are the same with carriage returns, but for those in what names them. -/
theorem includeTexts_withReturns : includeTexts.WithReturns Text.returned := by
  refine ⟨fun _ _ _ => rfl, fun text context node => ?_⟩
  simp only [includeTexts, Function.comp_apply, includedBy_withReturns]
  split <;> rfl

/-- The properties that entries set by their texts. -/
def propertyTexts (module : String) : TextSurvey Unit PropertyRecord where
  start := ()
  enter _ _ context := context
  leave _ context := context
  factsAt text _ node :=
    let (key, value) := Properties.splitEntry (text node)
    if node.kind == .property && !key.isEmpty then
      [⟨module, String.ofList key, String.ofList value⟩]
    else []

/-- Properties go by the texts of entries. -/
theorem propertyTexts_goesByAllTexts (module : String) :
    (propertyTexts module).GoesByAllTexts := by
  refine fun {text other node twin} hheaders htext => ⟨⟨fun _ => rfl, fun _ => rfl⟩, fun _ => ?_⟩
  simp only [propertyTexts, hheaders.kind_eq, htext]

/-- Properties are the same with carriage returns. -/
theorem propertyTexts_withReturns (module : String) : (propertyTexts module).WithReturns id := by
  refine ⟨fun _ _ _ => rfl, fun text context node => ?_⟩
  simp only [propertyTexts, Function.comp_apply, Properties.splitEntry_withReturns, List.map_id]

/-- The properties in a properties file are those that its entries set. -/
theorem propertiesOf_contents (unit : SourceUnit) (hlanguage : unit.language = .properties) :
    (propertiesOf unit).contents = (propertyTexts unit.module).facts unit.text unit.root := by
  have hdescribes : (propertyTexts unit.module).Describes propertySurvey unit ([·]) := by
    refine ⟨rfl, fun _ _ => rfl, fun _ _ => rfl, fun context node => ?_⟩
    simp only [propertySurvey, propertyTexts, Analyzer.value?, propertyAnalyzer, List.flatMap_cons,
      List.flatMap_nil, List.append_nil, List.contains_cons, List.contains_nil, Bool.or_false,
      List.flatMap_singleton']
    cases node.kind == .property <;>
      cases (Properties.splitEntry (unit.text node)).1.isEmpty <;> rfl
  rw [← hdescribes.facts_eq, List.flatMap_singleton', propertiesOf, hlanguage]

end Gradle

namespace Language

/-- Whether a backslash in a literal of a text in a language takes a line feed with it. -/
def escapesBreaks : Language → List Char → Bool
  | kotlin, source => Script.escapesBreaks .kotlin source
  | groovy, source => Script.escapesBreaks .groovy source
  | _, _ => false

variable {language : Language} {path : Path} {source : List Char} {root : Node}

/-- With carriage returns before line feeds the tree of a file has nodes at the same places. -/
theorem tree_withReturns
    (hlanguage : language = .kotlin ∨ language = .groovy ∨ language = .properties)
    (hplain : language.escapesBreaks source = false)
    (htree : language.tree path source = .ok root) :
    ∃ twin, language.tree path (withReturns source) = .ok twin ∧
      Node.AllAlike (Node.SameRange source) [root] [twin] := by
  have hscript (dialect : Script.Dialect) (hdialect : Script.escapesBreaks dialect source = false)
      (htree : dialect.language.tree path source = .ok root) :
      ∃ twin, dialect.language.tree path (withReturns source) = .ok twin ∧
        Node.AllAlike (Node.SameRange source) [root] [twin] := by
    obtain ⟨twin, htwin, halike⟩ :=
      Script.tree_withReturns hdialect (Script.language_tree_eq_ok_iff.mp htree)
    exact ⟨twin, Script.language_tree_eq_ok_iff.mpr htwin, halike⟩
  rcases hlanguage with rfl | rfl | rfl
  · exact hscript .kotlin hplain htree
  · exact hscript .groovy hplain htree
  · cases htree
    exact ⟨_, rfl, Properties.tree_withReturns source⟩

/-- A file that is accepted with carriage returns before line feeds is accepted without, and no
backslash in a literal takes a line feed with it. -/
theorem tree_of_withReturns {twin : Node}
    (hlanguage : language = .kotlin ∨ language = .groovy ∨ language = .properties)
    (htree : language.tree path (withReturns source) = .ok twin) :
    language.escapesBreaks source = false ∧ ∃ root, language.tree path source = .ok root := by
  have hscript (dialect : Script.Dialect)
      (htree : dialect.language.tree path (withReturns source) = .ok twin) :
      Script.escapesBreaks dialect source = false ∧
        ∃ root, dialect.language.tree path source = .ok root := by
    obtain ⟨hplain, root, hroot⟩ :=
      Script.tree_of_withReturns (Script.language_tree_eq_ok_iff.mp htree)
    exact ⟨hplain, root, Script.language_tree_eq_ok_iff.mpr hroot⟩
  rcases hlanguage with rfl | rfl | rfl
  · exact hscript .kotlin htree
  · exact hscript .groovy htree
  · exact ⟨rfl, _, rfl⟩

end Language

namespace SourceUnit

/-- A parsed file as part of a module of a project. -/
def placed (unit : SourceUnit) (relativePath module : String) : SourceUnit :=
  { unit with relativePath := relativePath, module := module }

/-- A text that is parsed becomes a file with its tree. -/
theorem ofText_eq_ok_iff {path : Path} {language : Language} {text : List Char}
    {unit : SourceUnit} (hpath : Language.ofPath? path = some language) :
    ofText path text = .ok unit ↔ ∃ root,
      language.tree path (dropByteOrderMark text) = .ok root ∧
        ⟨path, String.ofList ((path.fileName?).getD []), ".", language, dropByteOrderMark text,
          root⟩ = unit := by
  simp only [ofText, hpath]
  cases language.tree path (dropByteOrderMark text) with
  | error error => simp [bind, Except.bind]
  | ok root => simp [bind, Except.bind]

/-- Two files hold the same facts, but for the line ends in plugins and modules. -/
structure SameFacts (unit twin : SourceUnit) : Prop where
  /-- They hold the same imports. -/
  imports : ∀ languages, (Imports.importsOf languages twin).contents =
    (Imports.importsOf languages unit).contents
  /-- They hold the same dependencies. -/
  dependencies : (Gradle.dependenciesOf twin).contents = (Gradle.dependenciesOf unit).contents
  /-- They hold the same properties. -/
  properties : (Gradle.propertiesOf twin).contents = (Gradle.propertiesOf unit).contents
  /-- They hold the same plugins, with carriage returns in what names them. -/
  plugins : (Gradle.pluginsOf twin).contents =
    (Gradle.pluginsOf unit).contents.map Gradle.PluginRecord.returned
  /-- They include the same modules, with carriage returns in what names them. -/
  modules : Gradle.includedModules twin = (Gradle.includedModules unit).map Text.returned

open Gradle Imports

variable {unit twin : SourceUnit}

/-- Files of one language whose nodes lie at the same places hold the same imports. -/
theorem imports_of_alike
    (hunit : unit.language = .kotlin ∨ unit.language = .groovy ∨ unit.language = .properties)
    (hlanguage : twin.language = unit.language)
    (hsource : twin.source = withReturns unit.source)
    (hnodes : Node.AllAlike (Node.SameRange unit.source) [unit.root] [twin.root])
    (languages : List ImportLanguage) :
    (importsOf languages twin).contents = (importsOf languages unit).contents := by
  by_cases hasked : unit.language = .kotlin ∧ ImportLanguage.kotlin ∈ languages
  · rw [importsOf_contents unit hasked.1 hasked.2,
      importsOf_contents twin (hlanguage.trans hasked.1) hasked.2,
      importTexts_withReturns.facts_eq importTexts_goesByTexts.goesByAllTexts hsource hnodes,
      List.map_id]
  · have hnone (unit : SourceUnit)
        (hunit : unit.language = .kotlin ∨ unit.language = .groovy ∨ unit.language = .properties)
        (hasked : ¬ (unit.language = .kotlin ∧ ImportLanguage.kotlin ∈ languages)) :
        (importsOf languages unit).contents = [] := by
      rcases hunit with h | h | h <;>
        simp_all [importsOf, ImportLanguage.ofLanguage?, Findings.contents, Findings.empty]
    rw [hnone unit hunit hasked, hnone twin (by rwa [hlanguage]) (by rwa [hlanguage])]

/-- Files of one language and module whose nodes lie at the same places hold the same facts, but for
the line ends in plugins and modules. -/
theorem sameFacts_of_alike
    (hunit : unit.language = .kotlin ∨ unit.language = .groovy ∨ unit.language = .properties)
    (hlanguage : twin.language = unit.language) (hmodule : twin.module = unit.module)
    (hsource : twin.source = withReturns unit.source)
    (hnodes : Node.AllAlike (Node.SameRange unit.source) [unit.root] [twin.root]) :
    SameFacts unit twin := by
  have hfacts {κ α : Type} {reading : TextSurvey κ α} {change : α → α}
      (h : reading.WithReturns change) (hreading : reading.GoesByAllTexts) :
      reading.facts twin.text twin.root = (reading.facts unit.text unit.root).map change :=
    h.facts_eq hreading hsource hnodes
  refine ⟨imports_of_alike hunit hlanguage hsource hnodes, ?_, ?_, ?_, ?_⟩
  · by_cases hscript : unit.language = .kotlin ∨ unit.language = .groovy
    · rw [dependenciesOf_contents unit hscript, dependenciesOf_contents twin (by rwa [hlanguage]),
        hmodule, hfacts (dependencyTexts_withReturns _)
          (dependencyTexts_goesByTexts _).goesByAllTexts, List.map_id]
    · obtain hunit : unit.language = .properties := by tauto
      simp only [dependenciesOf, hlanguage, hunit]
  · by_cases hproperties : unit.language = .properties
    · rw [propertiesOf_contents unit hproperties,
        propertiesOf_contents twin (hlanguage.trans hproperties), hmodule,
        hfacts (propertyTexts_withReturns _) (propertyTexts_goesByAllTexts _), List.map_id]
    · rcases hunit with h | h | h <;> simp_all [propertiesOf]
  · by_cases hscript : unit.language = .kotlin ∨ unit.language = .groovy
    · rw [pluginsOf_contents unit hscript, pluginsOf_contents twin (by rwa [hlanguage]), hmodule,
        hfacts (pluginTexts_withReturns _) (pluginTexts_goesByTexts _).goesByAllTexts]
    · obtain hunit : unit.language = .properties := by tauto
      simp only [pluginsOf, hlanguage, hunit]
      rfl
  · rw [includedModules_eq, includedModules_eq,
      hfacts includeTexts_withReturns includeTexts_goesByTexts.goesByAllTexts,
      firstOccurrences_map returned_injective]

end SourceUnit

/-- A file that is accepted with a carriage return before each line feed is accepted without, and the
other way round if no backslash in a literal takes a line feed with it. If both are accepted, they
hold the same imports, dependencies and properties, and their plugins and modules are the same but
for the carriage returns in what names them. -/
theorem withReturns_keeps_facts {path : Path} {language : Language} {source : List Char}
    (hpath : Language.ofPath? path = some language)
    (hlanguage : language = .kotlin ∨ language = .groovy ∨ language = .properties) :
    ((∃ twin, SourceUnit.ofText path (withReturns source) = .ok twin) →
      ∃ unit, SourceUnit.ofText path source = .ok unit) ∧
    (language.escapesBreaks (dropByteOrderMark source) = false →
      (∃ unit, SourceUnit.ofText path source = .ok unit) →
        ∃ twin, SourceUnit.ofText path (withReturns source) = .ok twin) ∧
    ∀ unit twin, SourceUnit.ofText path source = .ok unit →
      SourceUnit.ofText path (withReturns source) = .ok twin → ∀ relativePath module,
        (unit.placed relativePath module).SameFacts (twin.placed relativePath module) := by
  simp only [SourceUnit.ofText_eq_ok_iff hpath, dropByteOrderMark_withReturns]
  refine ⟨?_, ?_, ?_⟩
  · rintro ⟨_, twin, htwin, rfl⟩
    obtain ⟨-, root, hroot⟩ := Language.tree_of_withReturns hlanguage htwin
    exact ⟨_, root, hroot, rfl⟩
  · rintro hplain ⟨_, root, hroot, rfl⟩
    obtain ⟨twin, htwin, -⟩ := Language.tree_withReturns hlanguage hplain hroot
    exact ⟨_, twin, htwin, rfl⟩
  · rintro _ _ ⟨root, hroot, rfl⟩ ⟨twin, htwin, rfl⟩ relativePath module
    obtain ⟨hplain, -⟩ := Language.tree_of_withReturns hlanguage htwin
    obtain ⟨other, hother, halike⟩ := Language.tree_withReturns hlanguage hplain hroot
    obtain rfl := Except.ok.inj (htwin.symm.trans hother)
    exact SourceUnit.sameFacts_of_alike hlanguage rfl rfl rfl halike

/-- Of these two modules one has a line feed in its path, and the carriage return before that stays
there. -/
theorem withReturns_keeps_module_path :
    let path : Path := ⟨"settings.gradle"⟩
    let source := "include '''a\nb''', ':c'\n".toList
    Language.ofPath? path = some .groovy ∧
      Language.groovy.escapesBreaks (dropByteOrderMark source) = false ∧
      ∃ unit twin, SourceUnit.ofText path source = .ok unit ∧
        SourceUnit.ofText path (withReturns source) = .ok twin ∧
        Gradle.includedModules unit = ["a\nb", "c"] ∧
        Gradle.includedModules (twin.placed "settings.gradle" ".") = ["a\r\nb", "c"] := by
  intro path source
  have hpath : Language.ofPath? path = some .groovy := by decide
  have hplain : Language.groovy.escapesBreaks (dropByteOrderMark source) = false := by
    decide +kernel
  obtain ⟨unit, hunit, hmodules⟩ : ∃ unit, SourceUnit.ofText path source = .ok unit ∧
      Gradle.includedModules unit = ["a\nb", "c"] := SourceUnit.exists_of_map (by decide +kernel)
  obtain ⟨-, hreturned, hsame⟩ := withReturns_keeps_facts hpath (by simp)
  obtain ⟨twin, htwin⟩ := hreturned hplain ⟨unit, hunit⟩
  have hfacts := hsame unit twin hunit htwin "settings.gradle" "."
  refine ⟨hpath, hplain, unit, twin, hunit, htwin, hmodules, ?_⟩
  rw [hfacts.modules, Gradle.includedModules_eq]
  rw [Gradle.includedModules_eq] at hmodules
  exact (congrArg _ hmodules).trans (by decide)

/-- Neither acceptance nor facts stay the same for all files. A backslash in a literal takes a line
feed with it, but not a carriage return and a line feed; and a line feed in the path of a module is
one of its characters, so the path is another one with a carriage return before that. -/
theorem withReturns_not_ignored :
    (¬ ∀ (path : Path) (language : Language) (source : List Char), '\r' ∉ source →
      Language.ofPath? path = some language →
      (language = .kotlin ∨ language = .groovy ∨ language = .properties) →
      ((∃ twin, SourceUnit.ofText path (withReturns source) = .ok twin) ↔
        ∃ unit, SourceUnit.ofText path source = .ok unit)) ∧
    ¬ ∀ (path : Path) (language : Language) (source : List Char), '\r' ∉ source →
      Language.ofPath? path = some language →
      (language = .kotlin ∨ language = .groovy ∨ language = .properties) →
      ∀ unit twin, SourceUnit.ofText path source = .ok unit →
        SourceUnit.ofText path (withReturns source) = .ok twin →
          (∀ languages, (Imports.importsOf languages twin).contents =
            (Imports.importsOf languages unit).contents) ∧
          (Gradle.dependenciesOf twin).contents = (Gradle.dependenciesOf unit).contents ∧
          (Gradle.pluginsOf twin).contents = (Gradle.pluginsOf unit).contents ∧
          (Gradle.propertiesOf twin).contents = (Gradle.propertiesOf unit).contents ∧
          Gradle.includedModules twin = Gradle.includedModules unit := by
  let path : Path := ⟨"settings.gradle"⟩
  constructor
  · intro h
    let source := "include 'a\\\nb'\n".toList
    obtain ⟨unit, hunit, -⟩ : ∃ unit, SourceUnit.ofText path source = .ok unit ∧
        Gradle.includedModules unit = ["a\\\nb"] := SourceUnit.exists_of_map (by decide +kernel)
    have hrefused : (SourceUnit.ofText path (withReturns source)).toOption.map
        Gradle.includedModules = none := by decide +kernel
    obtain ⟨twin, htwin⟩ := (h path .groovy source (by decide) (by decide) (by simp)).mpr
      ⟨unit, hunit⟩
    rw [htwin] at hrefused
    cases hrefused
  · intro h
    let source := "include '''a\nb'''\n".toList
    obtain ⟨unit, hunit, hmodules⟩ : ∃ unit, SourceUnit.ofText path source = .ok unit ∧
        Gradle.includedModules unit = ["a\nb"] := SourceUnit.exists_of_map (by decide +kernel)
    obtain ⟨twin, htwin, hothers⟩ : ∃ twin,
        SourceUnit.ofText path (withReturns source) = .ok twin ∧
          Gradle.includedModules twin = ["a\r\nb"] := SourceUnit.exists_of_map (by decide +kernel)
    have hsame := h path .groovy source (by decide) (by decide) (by simp)
    obtain ⟨-, -, -, -, hkept⟩ := hsame unit twin hunit htwin
    rw [hmodules, hothers] at hkept
    exact absurd hkept (by decide)

end CorpusFacts
