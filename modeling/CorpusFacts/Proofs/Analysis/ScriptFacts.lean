import CorpusFacts.Gradle.IncludedModules
import CorpusFacts.Gradle.Plugins
import CorpusFacts.Imports.Imports
import CorpusFacts.Proofs.Analysis.TextSurvey

/-!
# What scripts say

Imports, dependencies, plugins and included modules are read off the texts of statements, directives
and headers. Nothing else of a script matters to them.
-/

namespace CorpusFacts

namespace Imports

/-- The imports and packages that directives name by their texts. -/
def importTexts : TextSurvey Unit ImportFact where
  start := ()
  enter _ _ context := context
  leave _ context := context
  factsAt text _ node :=
    match node.kind with
    | .packageDirective =>
      ((directiveName? "package" (text node)).map fun name => .package (String.ofList name)).toList
    | .importDirective =>
      ((directiveName? "import" (text node)).map fun name => .imports [String.ofList name]).toList
    | _ => []

/-- Imports go by the texts of directives alone, in whatever context. -/
theorem importTexts_goesByTexts : importTexts.GoesByTexts := by
  refine ⟨fun _ => ⟨fun _ => rfl, fun _ => rfl⟩, fun {text other node twin} hsame context => ?_⟩
  have htext := hsame.text_eq
  simp only [importTexts, hsame.kind_eq]
  split
  · rename_i hkind
    rw [htext (by rw [hkind]; rfl)]
  · rename_i hkind
    rw [htext (by rw [hkind]; rfl)]
  · rfl

/-- The package analyzer goes by the text of a directive. -/
theorem packageAnalyzer_value? (kind : NodeKind) (unit : SourceUnit) (context : Unit)
    (node : Node) : (packageAnalyzer kind).value? unit context node =
      if node.kind = kind then
        (directiveName? "package" (unit.text node)).map fun name => .package (String.ofList name)
      else none := by
  simp only [Analyzer.value?, packageAnalyzer, List.contains_cons, List.contains_nil, Bool.or_false,
    beq_iff_eq]
  cases directiveName? "package" (unit.text node) <;> rfl

/-- The import analyzer goes by the text of a directive. -/
theorem importAnalyzer_value? (kind : NodeKind) (unit : SourceUnit) (context : Unit)
    (node : Node) : (importAnalyzer kind).value? unit context node =
      if node.kind = kind then
        (directiveName? "import" (unit.text node)).map fun name => .imports [String.ofList name]
      else none := by
  simp only [Analyzer.value?, importAnalyzer, List.contains_cons, List.contains_nil, Bool.or_false,
    beq_iff_eq]
  cases directiveName? "import" (unit.text node) <;> rfl

/-- The imports of a Kotlin source are those that its directives name. -/
theorem importsOf_contents {languages : List ImportLanguage} (unit : SourceUnit)
    (hlanguage : unit.language = .kotlin) (hasked : ImportLanguage.kotlin ∈ languages) :
    (importsOf languages unit).contents = importTexts.facts unit.text unit.root := by
  have hdescribes : importTexts.Describes
      (⟨(), [], ImportLanguage.kotlin.analyzers⟩ : Survey Unit ImportFact) unit ([·]) := by
    refine ⟨rfl, fun _ _ => rfl, fun _ _ => rfl, fun context node => ?_⟩
    simp only [List.flatMap_singleton', ImportLanguage.analyzers, List.flatMap_cons,
      List.flatMap_nil, List.append_nil, packageAnalyzer_value?, importAnalyzer_value?, importTexts]
    cases node.kind <;> simp
  have hcontains : languages.contains ImportLanguage.kotlin = true := by simpa using hasked
  rw [← hdescribes.facts_eq, List.flatMap_singleton', importsOf, hlanguage]
  simp only [ImportLanguage.ofLanguage?, hcontains, if_true]

end Imports

namespace Gradle

/-- The name of a block by the text of its header. -/
def blockNameBy (text : Node → List Char) (node : Node) : Option (List Char) :=
  ((node.childOfKind? .blockHeader).map text).bind Script.nameOfHeader

/-- The context inside a node by the texts of headers. -/
def enterBlock (text : Node → List Char) (node : Node) (context : BlockContext) : BlockContext :=
  if node.kind == .block then ⟨(blockNameBy text node).bind Block.ofName? :: context.chain⟩
  else context

/-- The context after a node. -/
def leaveBlock (node : Node) (context : BlockContext) : BlockContext :=
  if node.kind == .block then ⟨context.chain.drop 1⟩ else context

/-- Contexts go by the texts of headers. -/
theorem blockController_enter (unit : SourceUnit) (node : Node) (context : BlockContext) :
    blockController.enter unit node context = enterBlock unit.text node context := by
  simp only [blockController, enterBlock, Script.blockName, blockNameBy, Option.bind_map]
  cases node.kind == .block <;> rfl

/-- Contexts inside of corresponding nodes are the same. -/
theorem enterBlock_eq {text other : Node → List Char} {node twin : Node}
    (hsame : SameHeaders text other node twin) (context : BlockContext) :
    enterBlock other twin context = enterBlock text node context := by
  simp only [enterBlock, blockNameBy, hsame.kind_eq, hsame.header_eq]

/-- Contexts after corresponding nodes are the same. -/
theorem leaveBlock_eq {text other : Node → List Char} {node twin : Node}
    (hsame : SameHeaders text other node twin) (context : BlockContext) :
    leaveBlock twin context = leaveBlock node context := by
  simp only [leaveBlock, hsame.kind_eq]

/-- The text of a statement, or of the header of a block. -/
def declaringTextBy? (text : Node → List Char) (node : Node) : Option (List Char) :=
  if node.kind == .block then (node.childOfKind? .blockHeader).map text
  else some (text node)

/-- The dependencies that a text declares in a module. -/
def declaredBy (module : String) (isForAllProjects : Bool) (text : List Char) :
    List DependencyRecord :=
  match declaration text with
  | .ok coordinates => coordinates.map (·.record module isForAllProjects)
  | .error _ => []

/-- The dependencies that statements and headers declare by their texts. -/
def dependencyTexts (module : String) : TextSurvey BlockContext DependencyRecord where
  start := .outside
  enter := enterBlock
  leave := leaveBlock
  factsAt text context node :=
    if [NodeKind.statement, .block].contains node.kind &&
        context.innermost == some .dependencies then
      (declaringTextBy? text node).toList.flatMap (declaredBy module context.isForAllProjects)
    else []

/-- Dependencies go by the texts of statements and of headers, those of the blocks around included.
-/
theorem dependencyTexts_goesByTexts (module : String) :
    (dependencyTexts module).GoesByTexts := by
  refine ⟨fun hsame => ⟨enterBlock_eq hsame, leaveBlock_eq hsame⟩,
    fun {text other node twin} hsame context => ?_⟩
  have htext := hsame.text_eq
  have hheader := hsame.header_eq
  simp only [dependencyTexts, declaringTextBy?, hsame.kind_eq, hheader]
  cases hkind : node.kind with
  | statement => rw [htext (by rw [hkind]; rfl)]
  | block => rfl
  | _ => rfl

/-- The dependency analyzer goes by the text of a statement or header. -/
theorem dependencyAnalyzer_value? (unit : SourceUnit) (context : BlockContext) (node : Node) :
    (dependencyAnalyzer.value? unit context node).toList.flatten =
      (dependencyTexts unit.module).factsAt unit.text context node := by
  have htext : declaringText? unit node = declaringTextBy? unit.text node := rfl
  simp only [Analyzer.value?, dependencyAnalyzer, dependencyTexts, htext]
  cases [NodeKind.statement, .block].contains node.kind with
  | false => rfl
  | true =>
    by_cases hcontext : context.innermost = some .dependencies
    · simp only [hcontext, bne_self_eq_false, beq_self_eq_true, Bool.and_self]
      cases declaringTextBy? unit.text node with
      | none => rfl
      | some text =>
        simp only [Option.toList_some, List.flatMap_cons, List.flatMap_nil, List.append_nil,
          declaredBy]
        rcases declaration text with error | coordinates
        · rfl
        · cases coordinates with
          | nil => rfl
          | cons first rest => simp [Except.toOption]
    · simp [hcontext, Except.toOption]

/-- The dependencies of a build script are those that its statements and headers declare. -/
theorem dependenciesOf_contents (unit : SourceUnit)
    (hlanguage : unit.language = .kotlin ∨ unit.language = .groovy) :
    (dependenciesOf unit).contents = (dependencyTexts unit.module).facts unit.text unit.root := by
  have hdescribes : (dependencyTexts unit.module).Describes dependencySurvey unit id := by
    refine ⟨rfl, fun node context => blockController_enter unit node context, fun _ _ => rfl,
      fun context node => ?_⟩
    simpa [dependencySurvey] using dependencyAnalyzer_value? unit context node
  rw [← hdescribes.facts_eq]
  rcases hlanguage with hlanguage | hlanguage <;>
    simp [dependenciesOf, hlanguage, Findings.contents, Findings.flatMap, List.map_flatMap,
      List.flatMap_map, Finding.map, Function.comp_def]

/-- The plugin that a text names in a module. -/
def namedBy (module : String) (context : BlockContext) (text : List Char) : List PluginRecord :=
  match pluginIn context.current (Text.trim text) with
  | .ok entry => (entry.map (·.record module context.isForAllProjects)).toList
  | .error _ => []

/-- The plugins that statements name by their texts. -/
def pluginTexts (module : String) : TextSurvey BlockContext PluginRecord where
  start := .outside
  enter := enterBlock
  leave := leaveBlock
  factsAt text context node :=
    if node.kind == .statement then namedBy module context (text node) else []

/-- Plugins go by the texts of statements and of the headers of the blocks around. -/
theorem pluginTexts_goesByTexts (module : String) : (pluginTexts module).GoesByTexts := by
  refine ⟨fun hsame => ⟨enterBlock_eq hsame, leaveBlock_eq hsame⟩,
    fun {text other node twin} hsame context => ?_⟩
  simp only [pluginTexts, hsame.kind_eq]
  by_cases hkind : node.kind = .statement
  · rw [hsame.text_eq (by rw [hkind]; rfl)]
  · simp [hkind]

/-- The plugin analyzer goes by the text of a statement. -/
theorem pluginAnalyzer_value? (unit : SourceUnit) (context : BlockContext) (node : Node) :
    (pluginAnalyzer.value? unit context node).toList =
      (pluginTexts unit.module).factsAt unit.text context node := by
  simp only [Analyzer.value?, pluginAnalyzer, pluginTexts, namedBy, List.contains_cons,
    List.contains_nil, Bool.or_false]
  generalize pluginIn context.current (Text.trim (unit.text node)) = found
  cases node.kind == .statement with
  | false => rfl
  | true =>
    rcases found with error | entry
    · rfl
    · cases entry <;> rfl

/-- The plugins of a build script are those that its statements name. -/
theorem pluginsOf_contents (unit : SourceUnit)
    (hlanguage : unit.language = .kotlin ∨ unit.language = .groovy) :
    (pluginsOf unit).contents = (pluginTexts unit.module).facts unit.text unit.root := by
  have hdescribes : (pluginTexts unit.module).Describes pluginSurvey unit ([·]) := by
    refine ⟨rfl, fun node context => blockController_enter unit node context, fun _ _ => rfl,
      fun context node => ?_⟩
    simpa [pluginSurvey] using pluginAnalyzer_value? unit context node
  rw [← hdescribes.facts_eq, List.flatMap_singleton']
  rcases hlanguage with hlanguage | hlanguage <;> simp only [pluginsOf, hlanguage]

/-- The directories that a text includes. -/
def includedBy (text : List Char) : List String :=
  let text := Text.trim text
  if isInclude text then
    ((literalTexts text.length text).filterMap moduleDirectory?).map String.ofList
  else []

/-- The directories that statements include by their texts. -/
def includeTexts : TextSurvey Unit String where
  start := ()
  enter _ _ context := context
  leave _ context := context
  factsAt text _ node := if node.kind == .statement then includedBy (text node) else []

/-- Included directories go by the texts of statements alone, in whatever context. -/
theorem includeTexts_goesByTexts : includeTexts.GoesByTexts := by
  refine ⟨fun _ => ⟨fun _ => rfl, fun _ => rfl⟩, fun {text other node twin} hsame context => ?_⟩
  simp only [includeTexts, hsame.kind_eq]
  by_cases hkind : node.kind = .statement
  · rw [hsame.text_eq (by rw [hkind]; rfl)]
  · simp [hkind]

/-- The include analyzer goes by the text of a statement. -/
theorem includeAnalyzer_value? (unit : SourceUnit) (context : Unit) (node : Node) :
    (includeAnalyzer.value? unit context node).toList.flatten =
      includeTexts.factsAt unit.text context node := by
  simp only [Analyzer.value?, includeAnalyzer, includeTexts, includedBy, List.contains_cons,
    List.contains_nil, Bool.or_false]
  cases node.kind == .statement with
  | false => rfl
  | true =>
    cases isInclude (Text.trim (unit.text node)) with
    | false => rfl
    | true =>
      simp only [if_true, Bool.not_true, Bool.false_eq_true, if_false]
      cases (literalTexts (Text.trim (unit.text node)).length
        (Text.trim (unit.text node))).filterMap moduleDirectory? with
      | nil => rfl
      | cons first rest => simp [Except.toOption]

/-- The directories found in a settings script are those that its statements include. -/
theorem includeSurvey_contents (unit : SourceUnit) :
    (includeSurvey.collect unit).contents.flatten = includeTexts.facts unit.text unit.root := by
  have hdescribes : includeTexts.Describes includeSurvey unit id := by
    refine ⟨rfl, fun _ _ => rfl, fun _ _ => rfl, fun context node => ?_⟩
    simpa [includeSurvey] using includeAnalyzer_value? unit context node
  rw [← hdescribes.facts_eq, List.flatMap_id]

/-- The modules of a settings script are the directories that it includes, each once. -/
theorem includedModules_eq (unit : SourceUnit) :
    includedModules unit = firstOccurrences (includeTexts.facts unit.text unit.root) := by
  rw [← includeSurvey_contents]
  rfl

end Gradle

end CorpusFacts
