import CorpusFacts.Proofs.Analysis.ScriptFacts
import CorpusFacts.Proofs.Script.Balance
import CorpusFacts.Proofs.Script.BareTree

/-!
# Comments and facts

Taking the comments out of a script leaves its tree as it is, so the facts in the script can change
in one way only: the text of a statement, directive or header loses the comments inside of it, and
says something else then. Comments anywhere else do not matter.
-/

namespace CorpusFacts.Script

open Gradle Imports

/-- A script with its syntax tree as a file of a project. -/
def Dialect.file (dialect : Dialect) (path : Path) (relativePath module : String)
    (source : List Char) (root : Node) : SourceUnit :=
  ⟨path, relativePath, module, dialect.language, source, root⟩

/-- Whether no comment lies in a node. -/
def CommentFree (cut : List Piece) (node : Node) : Prop :=
  ∀ piece ∈ piecesIn node.start node.stop 0 cut, piece.kind.isComment = false

/-- When the facts of one kind are kept without the comments of a script. -/
structure KeptExactly (reading : TextSurvey κ α) (cut : List Piece) (unit : SourceUnit)
    (kept : Prop) : Prop where
  /-- They are kept exactly where the texts of all nodes say the same without comments. -/
  iff_facts : kept ↔
    reading.facts (bareText cut) unit.root = reading.facts unit.text unit.root
  /-- They are kept where all comments lie outside of statements, directives and headers. -/
  of_commentFree : (∀ leaf ∈ unit.root.leaves, CommentFree cut leaf) → kept
  /-- Where comments lie in a single statement or directive, they are kept exactly where the text of
  this one says the same without its comments. -/
  iff_leaf : ∀ before leaf after, unit.root.visits = before ++ .enter leaf :: after →
    leaf.kind ≠ .blockHeader →
    (∀ node, .enter node ∈ before ++ after → node.kind.isLeaf = true → CommentFree cut node) →
    (kept ↔ reading.factsBehind (bareText cut) before leaf =
      reading.factsBehind unit.text before leaf)

variable {dialect : Dialect} {cut : List Piece}

/-- Nodes that are the same but for the comments have the same texts once the comments are gone. -/
theorem SameNode.sameTexts {unit : SourceUnit} (hproper : ∀ piece ∈ cut, piece.text ≠ [])
    (hsource : unit.source = textOf (withoutComments cut)) {node twin : Node}
    (h : SameNode cut node twin) : SameTexts (bareText cut) unit.text node twin := by
  have htext {node twin : Node} (h : SameSpan cut node twin) :
      unit.text twin = bareText cut node := by
    rw [SourceUnit.text, hsource]
    exact h.text hproper
  have hchildren := h.children.imp fun _ _ hchild => And.intro hchild.kind (htext hchild)
  exact ⟨Node.sameHeaders_of_children h.kind hchildren, fun _ => htext h.toSameSpan⟩

section

variable {unit bare : SourceUnit} {reading : TextSurvey κ α}

/-- Once the comments of a script are gone, its nodes say what their texts say without comments. -/
theorem facts_bare (hreading : reading.GoesByTexts) (hproper : ∀ piece ∈ cut, piece.text ≠ [])
    (hsource : bare.source = textOf (withoutComments cut))
    (hvisits : List.Forall₂ (Visit.Alike (SameNode cut)) unit.root.visits bare.root.visits) :
    reading.facts bare.text bare.root = reading.facts (bareText cut) unit.root := by
  refine TextSurvey.along_congr (hvisits.imp fun visit other halike => ?_) _
  cases halike with
  | enter hsame => exact .enter (hreading.agrees (hsame.sameTexts hproper hsource))
  | leave hsame => exact .leave (hreading.agrees (hsame.sameTexts hproper hsource))

/-- A node without comments has the same text once the comments are gone. -/
theorem CommentFree.bareText_eq (hproper : ∀ piece ∈ cut, piece.text ≠ [])
    (hsource : unit.source = textOf cut)
    (hvisits : List.Forall₂ (Visit.Alike (SameNode cut)) unit.root.visits bare.root.visits)
    {node : Node} (hnode : .enter node ∈ unit.root.visits) (h : CommentFree cut node) :
    bareText cut node = unit.text node := by
  obtain ⟨twin, hsame⟩ := Visit.exists_twin hvisits hnode
  rw [SourceUnit.text, hsource]
  exact hsame.bareText_eq hproper h

/-- The facts that texts of nodes hold are kept without comments exactly where the texts say so. -/
theorem keptExactly (hreading : reading.GoesByTexts) (hproper : ∀ piece ∈ cut, piece.text ≠ [])
    (hsource : unit.source = textOf cut) (hbare : bare.source = textOf (withoutComments cut))
    (hvisits : List.Forall₂ (Visit.Alike (SameNode cut)) unit.root.visits bare.root.visits) :
    KeptExactly reading cut unit
      (reading.facts bare.text bare.root = reading.facts unit.text unit.root) := by
  rw [facts_bare hreading hproper hbare hvisits]
  refine ⟨Iff.rfl, fun hleaves => hreading.facts_eq fun leaf hleaf => ?_, ?_⟩
  · exact (hleaves leaf hleaf).bareText_eq hproper hsource hvisits (Node.mem_leaves_iff.mp hleaf).1
  · intro before leaf after hsplit hheader hothers
    refine hreading.facts_eq_iff hsplit hheader fun node hnode hleaf =>
      (hothers node hnode hleaf).bareText_eq hproper hsource hvisits ?_
    rw [hsplit]
    simpa [or_left_comm] using Or.inr (List.mem_append.mp hnode)

end

/-- Without its comments a script is still accepted, and its imports, dependencies, plugins and
modules are kept exactly where the texts of its nodes say the same. -/
theorem facts_kept_without_comments_iff {source : List Char} {root : Node} (path : Path)
    (relativePath module : String) (languages : List ImportLanguage)
    (hcut : pieces dialect source = .ok cut) (htree : tree dialect source = .ok root) :
    ∃ bareRoot, tree dialect (textOf (withoutComments cut)) = .ok bareRoot ∧
      let unit := dialect.file path relativePath module source root
      let bare := dialect.file path relativePath module (textOf (withoutComments cut)) bareRoot
      (dialect = .kotlin → ImportLanguage.kotlin ∈ languages → KeptExactly importTexts cut unit
        ((importsOf languages bare).contents = (importsOf languages unit).contents)) ∧
      KeptExactly (dependencyTexts module) cut unit
        ((dependenciesOf bare).contents = (dependenciesOf unit).contents) ∧
      KeptExactly (pluginTexts module) cut unit
        ((pluginsOf bare).contents = (pluginsOf unit).contents) ∧
      KeptExactly includeTexts cut unit
        ((includeSurvey.collect bare).contents.flatten =
          (includeSurvey.collect unit).contents.flatten) ∧
      (includedModules bare = includedModules unit ↔
        firstOccurrences (includeTexts.facts (bareText cut) root) =
          firstOccurrences (includeTexts.facts unit.text root)) := by
  obtain ⟨hreads, rfl⟩ := pieces_eq_ok_iff.mp hcut
  have hproper := hreads.text_ne_nil
  obtain ⟨bareRoot, hbareTree, hvisits⟩ := tree_bare hreads htree
  refine ⟨bareRoot, hbareTree, ?_⟩
  intro unit bare
  have hlanguage : dialect.language = .kotlin ∨ dialect.language = .groovy := by
    cases dialect <;> simp [Dialect.language]
  have hkept {κ α : Type} {reading : TextSurvey κ α} (hreading : reading.GoesByTexts) :
      KeptExactly reading cut unit
        (reading.facts bare.text bare.root = reading.facts unit.text unit.root) :=
    keptExactly hreading hproper rfl rfl hvisits
  refine ⟨?_, ?_, ?_, ?_, ?_⟩
  · intro hdialect hasked
    have hkotlin : dialect.language = .kotlin := by rw [hdialect]; rfl
    rw [importsOf_contents bare hkotlin hasked, importsOf_contents unit hkotlin hasked]
    exact hkept importTexts_goesByTexts
  · rw [dependenciesOf_contents bare hlanguage, dependenciesOf_contents unit hlanguage]
    exact hkept (dependencyTexts_goesByTexts module)
  · rw [pluginsOf_contents bare hlanguage, pluginsOf_contents unit hlanguage]
    exact hkept (pluginTexts_goesByTexts module)
  · rw [includeSurvey_contents, includeSurvey_contents]
    exact hkept includeTexts_goesByTexts
  · have hbare : includeTexts.facts bare.text bare.root =
        includeTexts.facts (bareText cut) unit.root :=
      facts_bare includeTexts_goesByTexts hproper rfl hvisits
    rw [includedModules_eq, includedModules_eq, hbare]
    exact Iff.rfl

/-- A comment behind an import leaves the import as it is. -/
theorem comment_behind_import :
    ∃ root bareRoot, tree .kotlin "import a.b // c\n".toList = .ok root ∧
      tree .kotlin "import a.b \n".toList = .ok bareRoot ∧
      (importsOf [.kotlin] (Dialect.kotlin.file ⟨"A.kt"⟩ "A.kt" "." "import a.b \n".toList
          bareRoot)).contents =
        (importsOf [.kotlin] (Dialect.kotlin.file ⟨"A.kt"⟩ "A.kt" "." "import a.b // c\n".toList
          root)).contents := by
  have hcut : pieces .kotlin "import a.b // c\n".toList = .ok
      [⟨.token .word, "import".toList⟩, ⟨.blank, [' ']⟩, ⟨.token .word, ['a']⟩,
        ⟨.token (.punct '.'), ['.']⟩, ⟨.token .word, ['b']⟩, ⟨.blank, [' ']⟩,
        ⟨.lineComment, "// c".toList⟩, ⟨.token .newline, ['\n']⟩] := by
    decide +kernel
  have htokens : tokens .kotlin "import a.b // c\n".toList = .ok
      [⟨.word, "import".toList, 0, 1⟩, ⟨.word, ['a'], 7, 1⟩, ⟨.punct '.', ['.'], 8, 1⟩,
        ⟨.word, ['b'], 9, 1⟩, ⟨.newline, ['\n'], 15, 1⟩] := by
    decide +kernel
  have htree := tree_eq_ok_iff.mpr ⟨_, _, htokens, rfl, rfl⟩
  obtain ⟨bareRoot, hbare, himports, _⟩ :=
    facts_kept_without_comments_iff ⟨"A.kt"⟩ "A.kt" "." [.kotlin] hcut htree
  refine ⟨_, bareRoot, htree, hbare, ?_⟩
  refine (himports rfl (by simp)).of_commentFree fun leaf hleaf => ?_
  obtain rfl : leaf = .mk .importDirective none 0 10 1 [] := List.mem_singleton.mp hleaf
  simp only [CommentFree]
  decide

/-- A comment in the middle of an import does change the import. -/
theorem comment_changes_import :
    ¬ ∀ (dialect : Dialect) (source : List Char) (cut : List Piece) (root bareRoot : Node)
      (path : Path) (relativePath module : String) (languages : List ImportLanguage),
      pieces dialect source = .ok cut → tree dialect source = .ok root →
      tree dialect (textOf (withoutComments cut)) = .ok bareRoot →
      let unit := dialect.file path relativePath module source root
      let bare := dialect.file path relativePath module (textOf (withoutComments cut)) bareRoot
      (importsOf languages bare).contents = (importsOf languages unit).contents ∧
        (dependenciesOf bare).contents = (dependenciesOf unit).contents ∧
        (pluginsOf bare).contents = (pluginsOf unit).contents ∧
        includedModules bare = includedModules unit := by
  intro hall
  have hcut : pieces .kotlin "import a./*c*/b\n".toList = .ok
      [⟨.token .word, "import".toList⟩, ⟨.blank, [' ']⟩, ⟨.token .word, ['a']⟩,
        ⟨.token (.punct '.'), ['.']⟩, ⟨.blockComment, "/*c*/".toList⟩, ⟨.token .word, ['b']⟩,
        ⟨.token .newline, ['\n']⟩] := by
    decide +kernel
  have htokens : tokens .kotlin "import a./*c*/b\n".toList = .ok
      [⟨.word, "import".toList, 0, 1⟩, ⟨.word, ['a'], 7, 1⟩, ⟨.punct '.', ['.'], 8, 1⟩,
        ⟨.word, ['b'], 14, 1⟩, ⟨.newline, ['\n'], 15, 1⟩] := by
    decide +kernel
  have hbareTokens : tokens .kotlin "import a. b\n".toList = .ok
      [⟨.word, "import".toList, 0, 1⟩, ⟨.word, ['a'], 7, 1⟩, ⟨.punct '.', ['.'], 8, 1⟩,
        ⟨.word, ['b'], 10, 1⟩, ⟨.newline, ['\n'], 11, 1⟩] := by
    decide +kernel
  have htree := tree_eq_ok_iff.mpr ⟨_, _, htokens, rfl, rfl⟩
  have hbareTree := tree_eq_ok_iff.mpr ⟨_, _, hbareTokens, rfl, rfl⟩
  have himports := (hall .kotlin _ _ _ _ ⟨"A.kt"⟩ "A.kt" "." [.kotlin] hcut htree hbareTree).1
  revert himports
  decide +kernel

end CorpusFacts.Script
