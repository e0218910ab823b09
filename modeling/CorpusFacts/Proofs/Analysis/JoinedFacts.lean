import CorpusFacts.Proofs.Analysis.CommentedFacts
import CorpusFacts.Proofs.Script.Joining
import CorpusFacts.Proofs.Script.Shape

/-!
# The facts of one script behind another

What is found in a script is found statement by statement, in a context that the blocks around a
statement make up and that is left as it was behind each block. So with a semicolon on a line of its
own between them, two scripts hold the facts of the first one and then those of the second.
-/

namespace CorpusFacts

namespace Node.AllAlike

/-- Rows of trees that are made of each other node by node have one shape. -/
theorem of_map {same : Node → Node → Prop} {change : Node → Node}
    (hchildren : ∀ node, (change node).children = node.children.map change) :
    (nodes : List Node) → (∀ node ∈ listed nodes, same node (change node)) →
      AllAlike same nodes (nodes.map change)
  | [], _ => .nil
  | .mk kind role start stop line below :: nodes, h => by
    simp only [listed_cons, List.mem_cons, List.mem_append] at h
    have hbelow := of_map hchildren below fun node hnode => h node (Or.inr (Or.inl hnode))
    refine .cons (h _ (Or.inl rfl)) ?_
      (of_map hchildren nodes fun node hnode => h node (Or.inr (Or.inr hnode)))
    rw [hchildren]
    exact hbelow

end Node.AllAlike

namespace TextSurvey

variable {κ α : Type} {reading : TextSurvey κ α}

/-- A reading leaves the context behind a node as it was before, and passes over the root. -/
structure IsBalanced (reading : TextSurvey κ α) : Prop where
  /-- What is entered is left again. -/
  leave_enter : ∀ text node context, reading.leave node (reading.enter text node context) = context
  /-- The root is no context for what is below. -/
  enter_root : ∀ text root context, root.kind = .script → reading.enter text root context = context
  /-- The root holds no facts. -/
  factsAt_root : ∀ text root context, root.kind = .script → reading.factsAt text context root = []

/-- Behind some trees the context is what it was before them. -/
theorem IsBalanced.contextAfter_eq (h : reading.IsBalanced) (text : Node → List Char) :
    (nodes : List Node) → (context : κ) →
      reading.contextAfter text context (Node.visitsOfAll nodes) = context
  | [], _ => rfl
  | .mk kind role start stop line below :: nodes, context => by
    have hbelow := h.contextAfter_eq text below
    rw [Node.visitsOfAll_cons, contextAfter, contextAfter_append, contextAfter]
    simp only [Node.children]
    rw [hbelow, h.leave_enter]
    exact h.contextAfter_eq text nodes context

/-- The facts in two rows of trees, one behind the other. -/
theorem IsBalanced.along_siblings (h : reading.IsBalanced) (context : κ)
    (first second : List Node) :
    reading.along text context (Node.visitsOfAll (first ++ second)) =
      reading.along text context (Node.visitsOfAll first) ++
        reading.along text context (Node.visitsOfAll second) := by
  rw [Node.visitsOfAll_append, along_append, h.contextAfter_eq]

/-- The facts in a script are those in the trees below its root. -/
theorem IsBalanced.facts_eq (h : reading.IsBalanced) {root : Node} (hroot : root.kind = .script) :
    reading.facts text root =
      reading.along text reading.start (Node.visitsOfAll root.children) := by
  rw [facts, Node.visits_eq, Node.visitsOfAll_cons, along, h.enter_root _ _ _ hroot,
    h.factsAt_root _ _ _ hroot, List.nil_append, along_append]
  simp [Node.visitsOfAll, along]

end TextSurvey

/-- A node has the same text where its source stands between other texts. -/
theorem Node.LiesIn.text_eq {node twin : Node} {unit whole : SourceUnit} {before after : List Char}
    (h : node.LiesIn unit.source) (hwhole : whole.source = before ++ unit.source ++ after)
    (hstart : twin.start = node.start + Text.byteLength before)
    (hstop : twin.stop = node.stop + Text.byteLength before) :
    whole.text twin = unit.text node := by
  obtain ⟨front, text, back, hsource, _, hfront, hback, _, htext⟩ := h.part
  have hregroup : whole.source = (before ++ front) ++ text ++ (back ++ after) := by
    rw [hwhole, hsource]
    simp
  have hslice := sliceBytes_middle (before ++ front) text (back ++ after)
  rw [Text.byteLength_append, Nat.add_assoc] at hslice
  rw [htext unit rfl, SourceUnit.text, hregroup, hstart, hstop, hfront, hback,
    Text.byteLength_append, Nat.add_comm _ (Text.byteLength before),
    Nat.add_comm _ (Text.byteLength before)]
  exact hslice

namespace Imports

theorem importTexts_isBalanced : importTexts.IsBalanced :=
  ⟨fun _ _ _ => rfl, fun _ _ _ _ => rfl, fun _ _ _ hroot => by simp only [importTexts, hroot]⟩

end Imports

namespace Gradle

/-- What is entered at a block is left behind it. -/
theorem leaveBlock_enterBlock (text : Node → List Char) (node : Node) (context : BlockContext) :
    leaveBlock node (enterBlock text node context) = context := by
  unfold leaveBlock enterBlock
  split <;> rfl

/-- Only blocks are entered. -/
theorem enterBlock_root (text : Node → List Char) {root : Node} (context : BlockContext)
    (hroot : root.kind = .script) : enterBlock text root context = context := by
  simp [enterBlock, hroot]

theorem dependencyTexts_isBalanced (module : String) : (dependencyTexts module).IsBalanced :=
  ⟨leaveBlock_enterBlock, fun text _ context hroot => enterBlock_root text context hroot,
    fun _ _ _ hroot => by simp [dependencyTexts, hroot]⟩

theorem pluginTexts_isBalanced (module : String) : (pluginTexts module).IsBalanced :=
  ⟨leaveBlock_enterBlock, fun text _ context hroot => enterBlock_root text context hroot,
    fun _ _ _ hroot => by simp [pluginTexts, hroot]⟩

end Gradle

namespace Script

open Gradle Imports

variable {dialect : Dialect} {κ α : Type} {reading : TextSurvey κ α}

/-- The nodes of a script hold the same facts where the script stands between other texts. -/
theorem along_part (hreading : reading.GoesByTexts) {part : SourceUnit} (whole : SourceUnit)
    (front back : List Char) (change : Node → Node)
    (htree : tree dialect part.source = .ok part.root)
    (hwhole : whole.source = front ++ part.source ++ back)
    (hkind : ∀ node, (change node).kind = node.kind)
    (hstart : ∀ node, (change node).start = node.start + Text.byteLength front)
    (hstop : ∀ node, (change node).stop = node.stop + Text.byteLength front)
    (hchildren : ∀ node, (change node).children = node.children.map change) (context : κ) :
    reading.along whole.text context (Node.visitsOfAll (part.root.children.map change)) =
      reading.along part.text context (Node.visitsOfAll part.root.children) := by
  obtain ⟨_, _, _, _, _, _, _, hnodes⟩ := tree_wellFormed htree
  have htexts : reading.GoesByAllTexts := hreading.goesByAllTexts
  refine htexts.along_alike (.of_map hchildren _ fun node hnode => ⟨hkind node, ?_⟩) context
  exact (hnodes node hnode).1.text_eq hwhole (hstart node) (hstop node)

/-- Two scripts one behind the other hold the facts of the first one and then those of the second.
-/
theorem facts_join (hreading : reading.GoesByTexts) (hbalanced : reading.IsBalanced)
    {before after whole : SourceUnit} (hbefore : tree dialect before.source = .ok before.root)
    (hafter : tree dialect after.source = .ok after.root)
    (hsource : whole.source = before.source ++ "\n;\n".toList ++ after.source)
    (hroot : whole.root.kind = .script)
    (hchildren : whole.root.children = before.root.children ++ after.root.children.map
      (·.moved (Text.byteLength before.source + 3) (Text.newlines before.source + 2))) :
    reading.facts whole.text whole.root =
      reading.facts before.text before.root ++ reading.facts after.text after.root := by
  obtain ⟨_, _, hbeforeKind, _⟩ := tree_wellFormed hbefore
  obtain ⟨_, _, hafterKind, _⟩ := tree_wellFormed hafter
  have hlength : Text.byteLength (before.source ++ "\n;\n".toList) =
      Text.byteLength before.source + 3 := Text.byteLength_append ..
  have hfirst := along_part hreading whole [] ("\n;\n".toList ++ after.source) id hbefore
    (by rw [hsource, List.nil_append, List.append_assoc]) (by simp) (by simp [Text.byteLength])
    (by simp [Text.byteLength]) (by simp) reading.start
  have hsecond := along_part hreading whole (before.source ++ "\n;\n".toList) []
    (·.moved (Text.byteLength before.source + 3) (Text.newlines before.source + 2)) hafter
    (by rw [hsource, List.append_nil]) (by simp) (by rw [hlength]; simp) (by rw [hlength]; simp)
    (by simp) reading.start
  rw [List.map_id] at hfirst
  rw [hbalanced.facts_eq hbeforeKind, hbalanced.facts_eq hafterKind, hbalanced.facts_eq hroot,
    hchildren, hbalanced.along_siblings, hfirst, hsecond]

/-- With a semicolon on a line of its own between them, two scripts that are accepted make up one
that is accepted, unless the second one names an interpreter. Its tree has the statements and blocks
of the first script and then those of the second one, moved behind what stands before. So it holds
the dependencies, plugins and imports of the first script and then those of the second one. -/
theorem parse_join {first second : List Char} {firstRoot secondRoot : Node} (path : Path)
    (relativePath module : String) (languages : List ImportLanguage)
    (hfirst : tree dialect first = .ok firstRoot) (hsecond : tree dialect second = .ok secondRoot)
    (hplain : ¬ ['#', '!'] <+: second) :
    ∃ root, tree dialect (first ++ "\n;\n".toList ++ second) = .ok root ∧
      root.children = firstRoot.children ++ secondRoot.children.map
        (·.moved (Text.byteLength first + 3) (Text.newlines first + 2)) ∧
      let unit := dialect.file path relativePath module
      let before := unit first firstRoot
      let after := unit second secondRoot
      let whole := unit (first ++ "\n;\n".toList ++ second) root
      (dependenciesOf whole).contents =
        (dependenciesOf before).contents ++ (dependenciesOf after).contents ∧
      (pluginsOf whole).contents = (pluginsOf before).contents ++ (pluginsOf after).contents ∧
      (importsOf languages whole).contents =
        (importsOf languages before).contents ++ (importsOf languages after).contents := by
  refine ⟨_, tree_join hfirst hsecond hplain, rfl, ?_⟩
  intro unit before after whole
  have hlanguage : dialect.language = .kotlin ∨ dialect.language = .groovy := by
    cases dialect <;> simp [Dialect.language]
  have hfacts {κ α : Type} {reading : TextSurvey κ α} (hreading : reading.GoesByTexts)
      (hbalanced : reading.IsBalanced) : reading.facts whole.text whole.root =
        reading.facts before.text before.root ++ reading.facts after.text after.root :=
    facts_join hreading hbalanced hfirst hsecond rfl rfl rfl
  refine ⟨?_, ?_, ?_⟩
  · rw [dependenciesOf_contents whole hlanguage, dependenciesOf_contents before hlanguage,
      dependenciesOf_contents after hlanguage]
    exact hfacts (dependencyTexts_goesByTexts module) (dependencyTexts_isBalanced module)
  · rw [pluginsOf_contents whole hlanguage, pluginsOf_contents before hlanguage,
      pluginsOf_contents after hlanguage]
    exact hfacts (pluginTexts_goesByTexts module) (pluginTexts_isBalanced module)
  · by_cases hasked : dialect = .kotlin ∧ ImportLanguage.kotlin ∈ languages
    · obtain ⟨rfl, hasked⟩ := hasked
      rw [importsOf_contents whole rfl hasked, importsOf_contents before rfl hasked,
        importsOf_contents after rfl hasked]
      exact hfacts importTexts_goesByTexts importTexts_isBalanced
    · have hnone (unit : SourceUnit) (hunit : unit.language = dialect.language) :
          (importsOf languages unit).contents = [] := by
        cases dialect <;>
          simp_all [importsOf, Dialect.language, ImportLanguage.ofLanguage?, Findings.contents,
            Findings.empty]
      rw [hnone whole rfl, hnone before rfl, hnone after rfl, List.append_nil]

/-- A script that ends in an open operator and a comment takes nothing of a script behind it. -/
theorem open_operator_joined :
    ∃ firstRoot secondRoot root, tree .groovy "apply plugin: 'a', // b".toList = .ok firstRoot ∧
      tree .groovy "apply plugin: 'c'\n".toList = .ok secondRoot ∧
      ¬ ['#', '!'] <+: "apply plugin: 'c'\n".toList ∧
      tree .groovy ("apply plugin: 'a', // b".toList ++ "\n;\n".toList ++
        "apply plugin: 'c'\n".toList) = .ok root ∧
      root.children.map (fun node => (node.start, node.stop, node.line)) =
        [(0, 18, 1), (26, 43, 3)] := by
  have hfirst : tokens .groovy "apply plugin: 'a', // b".toList = .ok
      [⟨.word, "apply".toList, 0, 1⟩, ⟨.word, "plugin".toList, 6, 1⟩, ⟨.punct ':', [':'], 12, 1⟩,
        ⟨.string, "'a'".toList, 14, 1⟩, ⟨.punct ',', [','], 17, 1⟩] := by
    decide +kernel
  have hsecond : tokens .groovy "apply plugin: 'c'\n".toList = .ok
      [⟨.word, "apply".toList, 0, 1⟩, ⟨.word, "plugin".toList, 6, 1⟩, ⟨.punct ':', [':'], 12, 1⟩,
        ⟨.string, "'c'".toList, 14, 1⟩, ⟨.newline, ['\n'], 17, 1⟩] := by
    decide +kernel
  have hfirstTree := tree_eq_ok_iff.mpr ⟨_, _, hfirst, rfl, rfl⟩
  have hsecondTree := tree_eq_ok_iff.mpr ⟨_, _, hsecond, rfl, rfl⟩
  have hplain : ¬ ['#', '!'] <+: "apply plugin: 'c'\n".toList := by decide
  obtain ⟨root, hroot, hchildren, _⟩ :=
    parse_join ⟨"build.gradle"⟩ "build.gradle" "." [] hfirstTree hsecondTree hplain
  refine ⟨_, _, root, hfirstTree, hsecondTree, hplain, hroot, ?_⟩
  rw [hchildren]
  decide +kernel

end Script

end CorpusFacts
