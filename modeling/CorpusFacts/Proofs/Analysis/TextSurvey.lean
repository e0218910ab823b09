import CorpusFacts.Proofs.Analysis.Calls
import CorpusFacts.Syntax.Parse
import Mathlib.Data.List.Forall2

/-!
# Reading trees by the texts of their nodes

Many surveys go by the texts of nodes alone. A reading is such a survey with the texts as an
argument. So the facts in one tree can be compared with those in another one of the same shape, or
with those in the same tree when its nodes had other texts.
-/

namespace CorpusFacts

/-- A text is parsed, if something that is read off the file is known. -/
theorem SourceUnit.exists_of_map {β : Type} {path : Path} {source : List Char}
    {read : SourceUnit → β} {value : β}
    (h : (ofText path source).toOption.map read = some value) :
    ∃ unit, ofText path source = .ok unit ∧ read unit = value := by
  cases hunit : ofText path source with
  | error error => simp [hunit, Except.toOption] at h
  | ok unit => exact ⟨unit, rfl, by simpa [hunit, Except.toOption] using h⟩

/-- The node of a step. -/
def Visit.node : Visit → Node
  | enter node => node
  | leave node => node

/-- The nodes at two steps correspond, and both are reached or both are left. -/
inductive Visit.Alike (same : Node → Node → Prop) : Visit → Visit → Prop
  /-- Both nodes are reached. -/
  | enter {node twin : Node} (hsame : same node twin) : Alike same (.enter node) (.enter twin)
  /-- Both nodes are left. -/
  | leave {node twin : Node} (hsame : same node twin) : Alike same (.leave node) (.leave twin)

/-- A node that is reached has a counterpart. -/
theorem Visit.exists_twin {same : Node → Node → Prop} {visits others : List Visit} {node : Node}
    (h : List.Forall₂ (Visit.Alike same) visits others) (hnode : .enter node ∈ visits) :
    ∃ twin, same node twin := by
  induction h with
  | nil => simp at hnode
  | cons hvisit _ ih =>
    rcases List.mem_cons.mp hnode with rfl | hnode
    · cases hvisit with
      | enter hsame => exact ⟨_, hsame⟩
    · exact ih hnode

namespace Node

@[simp] theorem visitsOfAll_append (first second : List Node) :
    visitsOfAll (first ++ second) = visitsOfAll first ++ visitsOfAll second := by
  induction first with
  | nil => rfl
  | cons node first ih => simp [visitsOfAll, ih]

/-- The nodes on the way through some trees are those listed. -/
theorem mem_listed_of_visit {visit : Visit} :
    (nodes : List Node) → visit ∈ visitsOfAll nodes → visit.node ∈ listed nodes
  | [], h => by simp [visitsOfAll] at h
  | .mk kind role start stop line below :: nodes, h => by
    simp only [visitsOfAll, visits, List.cons_append, List.mem_cons, List.mem_append,
      List.not_mem_nil, or_false] at h
    rw [listed_cons]
    rcases h with rfl | (h | rfl) | h
    · exact List.mem_cons_self ..
    · have := mem_listed_of_visit below h
      exact List.mem_cons_of_mem _ (List.mem_append_left _ this)
    · exact List.mem_cons_self ..
    · have := mem_listed_of_visit nodes h
      exact List.mem_cons_of_mem _ (List.mem_append_right _ this)

/-- Every node listed is reached on the way through the trees. -/
theorem enter_mem_visitsOfAll {node : Node} :
    (nodes : List Node) → node ∈ listed nodes → .enter node ∈ visitsOfAll nodes
  | [], h => by simp at h
  | .mk kind role start stop line below :: nodes, h => by
    rw [listed_cons] at h
    simp only [visitsOfAll, visits, List.cons_append, List.mem_cons, List.mem_append]
    rcases List.mem_cons.mp h with rfl | h
    · exact Or.inl rfl
    rcases List.mem_append.mp h with h | h
    · exact Or.inr (Or.inl (Or.inl (enter_mem_visitsOfAll below h)))
    · exact Or.inr (Or.inr (enter_mem_visitsOfAll nodes h))

/-- The way through a tree, as that through a row of one tree. -/
theorem visits_eq (root : Node) : root.visits = visitsOfAll [root] := by
  simp [visitsOfAll]

/-- A node with nothing below is reached and left. -/
theorem visits_of_children_nil {node : Node} (h : node.children = []) :
    node.visits = [.enter node, .leave node] := by
  obtain ⟨_, _, _, _, _, below⟩ := node
  obtain rfl : below = [] := h
  rfl

/-- The leaves of a tree are the leaves that are reached on the way through it. -/
theorem mem_leaves_iff {root leaf : Node} :
    leaf ∈ root.leaves ↔ .enter leaf ∈ root.visits ∧ leaf.kind.isLeaf = true := by
  have hlisted : root.preorder.map (·.2) = listed [root] := by simp [preorder_nodes]
  rw [leaves, hlisted, List.mem_filter, visits_eq]
  exact and_congr_left fun _ =>
    ⟨enter_mem_visitsOfAll [root], fun h => mem_listed_of_visit [root] h⟩

/-- The header of a block in a tree is reached on the way through the tree. -/
theorem enter_header_mem {root node header : Node} (hnode : .enter node ∈ root.visits)
    (hheader : node.childOfKind? .blockHeader = some header) :
    .enter header ∈ root.visits ∧ header.kind = .blockHeader := by
  rw [visits_eq] at hnode ⊢
  have hlisted := mem_listed_of_child (List.mem_of_find?_eq_some hheader) _
    (mem_listed_of_visit [root] hnode)
  exact ⟨enter_mem_visitsOfAll [root] hlisted, by simpa using List.find?_some hheader⟩

end Node

/-- A way to read facts off the nodes of a tree, given the texts of the nodes. -/
structure TextSurvey (κ α : Type) where
  /-- The context outside the tree. -/
  start : κ
  /-- The context inside a node. -/
  enter : (Node → List Char) → Node → κ → κ
  /-- The context after a node. -/
  leave : Node → κ → κ
  /-- The facts at a node. -/
  factsAt : (Node → List Char) → κ → Node → List α

/-- Two nodes are of one kind, and their headers have the same text. -/
structure SameHeaders (text other : Node → List Char) (node twin : Node) : Prop where
  /-- They are of one kind. -/
  kind_eq : twin.kind = node.kind
  /-- Their headers have the same text. -/
  header_eq : (twin.childOfKind? .blockHeader).map other =
    (node.childOfKind? .blockHeader).map text

/-- A node on the way through a tree has the same header by other texts, if headers keep theirs. -/
theorem Node.sameHeaders_self {text other : Node → List Char} {root node : Node}
    (hnode : .enter node ∈ root.visits)
    (h : ∀ header, .enter header ∈ root.visits → header.kind = .blockHeader →
      other header = text header) : SameHeaders text other node node := by
  refine ⟨rfl, ?_⟩
  cases hheader : node.childOfKind? .blockHeader with
  | none => rfl
  | some header =>
    obtain ⟨hmem, hkind⟩ := enter_header_mem hnode hheader
    rw [Option.map_some, Option.map_some, h header hmem hkind]

/-- Nodes of one kind, and with children of the same kinds, have the same header, if the children
have the same texts. -/
theorem Node.sameHeaders_of_children {text other : Node → List Char} {node twin : Node}
    (hkind : twin.kind = node.kind)
    (hchildren : List.Forall₂ (fun child twin => twin.kind = child.kind ∧ other twin = text child)
      node.children twin.children) : SameHeaders text other node twin := by
  refine ⟨hkind, ?_⟩
  rw [Node.childOfKind?, Node.childOfKind?]
  generalize node.children = children at hchildren
  generalize twin.children = others at hchildren
  induction hchildren with
  | nil => rfl
  | cons hchild _ ih =>
    rw [List.find?_cons, List.find?_cons, hchild.1]
    split
    · rw [Option.map_some, Option.map_some, hchild.2]
    · exact ih

/-- Two nodes are of one kind, and they and their headers have the same texts, as far as they are
leaves. -/
structure SameTexts (text other : Node → List Char) (node twin : Node) : Prop extends
    SameHeaders text other node twin where
  /-- As leaves they have the same text. -/
  text_eq : node.kind.isLeaf = true → other twin = text node

namespace TextSurvey

variable {κ α β : Type} (reading : TextSurvey κ α) (text : Node → List Char)

/-- The facts on the rest of a way through a tree. -/
def along : κ → List Visit → List α
  | _, [] => []
  | context, .enter node :: rest =>
    let inside := reading.enter text node context
    reading.factsAt text inside node ++ along inside rest
  | context, .leave node :: rest => along (reading.leave node context) rest

/-- The context behind a part of a way through a tree. -/
def contextAfter : κ → List Visit → κ
  | context, [] => context
  | context, .enter node :: rest => contextAfter (reading.enter text node context) rest
  | context, .leave node :: rest => contextAfter (reading.leave node context) rest

/-- The facts in a tree. -/
def facts (root : Node) : List α :=
  reading.along text reading.start root.visits

/-- The facts at a node that is reached behind the first part of the way through a tree. -/
def factsBehind (before : List Visit) (node : Node) : List α :=
  reading.factsAt text (reading.contextAfter text reading.start (before ++ [.enter node])) node

/-- A survey finds in a file, as values or in them, what a reading finds by the texts of nodes. -/
structure Describes (survey : Survey κ β) (unit : SourceUnit) (factsOf : β → List α) : Prop where
  /-- Both start in the same context. -/
  start : survey.start = reading.start
  /-- Both enter nodes alike. -/
  entered : ∀ node context, survey.entered unit node context = reading.enter unit.text node context
  /-- Both leave nodes alike. -/
  left : ∀ node context, survey.left unit node context = reading.leave node context
  /-- The values at a node hold its facts. -/
  found : ∀ context node, (survey.analyzers.flatMap fun analyzer =>
    (analyzer.value? unit context node).toList).flatMap factsOf =
      reading.factsAt unit.text context node

/-- Two nodes are entered and left alike. -/
structure KeepsContext (other : Node → List Char) (node twin : Node) : Prop where
  /-- Both are entered alike. -/
  enter : ∀ context, reading.enter other twin context = reading.enter text node context
  /-- Both are left alike. -/
  leave : ∀ context, reading.leave twin context = reading.leave node context

/-- The same is found at two nodes, in whatever context, by the text of each. -/
structure Agrees (other : Node → List Char) (node twin : Node) : Prop extends
    KeepsContext reading text other node twin where
  /-- Both hold the same facts. -/
  factsAt : ∀ context, reading.factsAt other context twin = reading.factsAt text context node

/-- A reading goes by the texts of leaves, and its contexts by those of headers alone. -/
structure GoesByTexts : Prop where
  /-- Nodes with the same headers are entered and left alike. -/
  keepsContext : ∀ {text other : Node → List Char} {node twin : Node},
    SameHeaders text other node twin → reading.KeepsContext text other node twin
  /-- Nodes with the same texts hold the same facts. -/
  factsAt_eq : ∀ {text other : Node → List Char} {node twin : Node},
    SameTexts text other node twin →
      ∀ context, reading.factsAt other context twin = reading.factsAt text context node

variable {reading text}

/-- What a survey finds in a file is what its reading finds in the tree. -/
theorem Describes.facts_eq {survey : Survey κ β} {unit : SourceUnit} {factsOf : β → List α}
    (h : reading.Describes survey unit factsOf) :
    (survey.collect unit).contents.flatMap factsOf = reading.facts unit.text unit.root := by
  have halong (visits : List Visit) (context : κ) :
      (survey.findingsAlong unit context visits).contents.flatMap factsOf =
        reading.along unit.text context visits := by
    induction visits generalizing context with
    | nil => rfl
    | cons visit visits ih =>
      cases visit with
      | enter node =>
        rw [Survey.findingsAlong, along, Findings.contents_append, List.flatMap_append,
          Survey.findingsAt_contents, h.found, h.entered, ih]
      | leave node => rw [Survey.findingsAlong, along, h.left, ih]
  rw [Survey.collect_eq, facts, h.start]
  exact halong _ _

/-- The facts on the first part of a way come first, then those on the rest, read in the context
behind the first part. -/
theorem along_append (context : κ) (first second : List Visit) :
    reading.along text context (first ++ second) = reading.along text context first ++
      reading.along text (reading.contextAfter text context first) second := by
  induction first generalizing context with
  | nil => rfl
  | cons visit first ih => cases visit <;> simp [along, contextAfter, ih]

/-- The context behind two parts of a way. -/
theorem contextAfter_append (context : κ) (first second : List Visit) :
    reading.contextAfter text context (first ++ second) =
      reading.contextAfter text (reading.contextAfter text context first) second := by
  induction first generalizing context with
  | nil => rfl
  | cons visit first ih => cases visit <;> simp [contextAfter, ih]

/-- Trees of one shape hold the same facts, if their nodes agree one by one. -/
theorem along_congr {other : Node → List Char} {visits others : List Visit}
    (h : List.Forall₂ (Visit.Alike (reading.Agrees text other)) visits others) (context : κ) :
    reading.along other context others = reading.along text context visits := by
  induction h generalizing context with
  | nil => rfl
  | cons hvisit _ ih =>
    cases hvisit with
    | enter hsame => rw [along, along, hsame.enter, hsame.factsAt, ih]
    | leave hsame => rw [along, along, hsame.leave, ih]

/-- Contexts are the same by other texts, if nodes are entered alike. -/
theorem contextAfter_eq {other : Node → List Char} {visits : List Visit}
    (h : ∀ node, .enter node ∈ visits → reading.KeepsContext text other node node) (context : κ) :
    reading.contextAfter other context visits = reading.contextAfter text context visits := by
  induction visits generalizing context with
  | nil => rfl
  | cons visit visits ih =>
    have hvisits := ih fun node hnode => h node (List.mem_cons_of_mem _ hnode)
    cases visit with
    | enter node => rw [contextAfter, contextAfter, (h node (by simp)).enter, hvisits]
    | leave node => rw [contextAfter, contextAfter, hvisits]

/-- Facts are the same by other texts, if the nodes that are reached agree. -/
theorem along_eq {other : Node → List Char} {visits : List Visit}
    (h : ∀ node, .enter node ∈ visits → reading.Agrees text other node node) (context : κ) :
    reading.along other context visits = reading.along text context visits := by
  induction visits generalizing context with
  | nil => rfl
  | cons visit visits ih =>
    have hvisits := ih fun node hnode => h node (List.mem_cons_of_mem _ hnode)
    cases visit with
    | enter node =>
      have hnode := h node (by simp)
      rw [along, along, hnode.enter, hnode.factsAt, hvisits]
    | leave node => rw [along, along, hvisits]

namespace GoesByTexts

variable {other : Node → List Char} {root : Node}

/-- Nodes with the same texts agree. -/
theorem agrees (h : reading.GoesByTexts) {node twin : Node}
    (hsame : SameTexts text other node twin) : reading.Agrees text other node twin :=
  ⟨h.keepsContext hsame.toSameHeaders, h.factsAt_eq hsame⟩

/-- By other texts a tree holds the same facts, if its leaves keep their texts. -/
theorem facts_eq (h : reading.GoesByTexts)
    (hleaves : ∀ leaf ∈ root.leaves, other leaf = text leaf) :
    reading.facts other root = reading.facts text root := by
  refine along_eq (fun node hnode => h.agrees ⟨?_, ?_⟩) _
  · refine Node.sameHeaders_self hnode fun header hheader hkind => hleaves header ?_
    exact Node.mem_leaves_iff.mpr ⟨hheader, by rw [hkind]; rfl⟩
  · exact fun hleaf => hleaves node (Node.mem_leaves_iff.mpr ⟨hnode, hleaf⟩)

/-- By other texts a tree holds the same facts exactly where one of its statements or directives
does, if all other leaves keep their texts. -/
theorem facts_eq_iff (h : reading.GoesByTexts) {before after : List Visit} {leaf : Node}
    (hvisits : root.visits = before ++ .enter leaf :: after) (hheader : leaf.kind ≠ .blockHeader)
    (hothers : ∀ node, .enter node ∈ before ++ after → node.kind.isLeaf = true →
      other node = text node) :
    reading.facts other root = reading.facts text root ↔
      reading.factsBehind other before leaf = reading.factsBehind text before leaf := by
  have hheaders : ∀ node, .enter node ∈ root.visits → SameHeaders text other node node := by
    intro node hnode
    refine Node.sameHeaders_self hnode fun header hmem hkind =>
      hothers header ?_ (by rw [hkind]; rfl)
    have hne : header ≠ leaf := fun heq => hheader (heq ▸ hkind)
    simpa [hvisits, hne] using hmem
  have hkeeps : ∀ node, .enter node ∈ root.visits → reading.KeepsContext text other node node :=
    fun node hnode => h.keepsContext (hheaders node hnode)
  have hagrees : ∀ node, .enter node ∈ before ++ after → reading.Agrees text other node node := by
    intro node hnode
    have hmem : .enter node ∈ root.visits := by
      rw [hvisits]
      simpa [or_left_comm] using Or.inr (List.mem_append.mp hnode)
    exact h.agrees ⟨hheaders node hmem, hothers node hnode⟩
  have hinside : ∀ context, reading.contextAfter other context (before ++ [.enter leaf]) =
      reading.contextAfter text context (before ++ [.enter leaf]) := by
    refine contextAfter_eq fun node hnode => hkeeps node ?_
    have := List.mem_append_left after hnode
    simpa [hvisits] using this
  -- The facts before the leaf and those behind it are the same, so both can be cancelled.
  have hsplit (text : Node → List Char) : reading.facts text root =
      reading.along text reading.start before ++ (reading.factsBehind text before leaf ++
        reading.along text (reading.contextAfter text reading.start (before ++ [.enter leaf]))
          after) := by
    rw [facts, hvisits, along_append, along]
    simp only [factsBehind, contextAfter_append, contextAfter]
  have hbefore := along_eq (fun node hnode => hagrees node (List.mem_append_left after hnode))
    reading.start
  have hafter := along_eq (fun node hnode => hagrees node (List.mem_append_right before hnode))
    (reading.contextAfter text reading.start (before ++ [.enter leaf]))
  rw [hsplit other, hsplit text, hbefore, hinside, hafter, List.append_cancel_left_eq,
    List.append_cancel_right_eq]

end GoesByTexts

end TextSurvey

/-! ## Trees of one shape

Two rows of trees have one shape when their nodes correspond one by one, parents to parents and
children to children. Then the preorders of both rows correspond, and so do the ways through them.
So what goes by the texts of nodes is the same in both rows, if these texts are. -/

namespace Node

/-- Two rows of trees have one shape, and the nodes at each place of it are the same in some way. -/
inductive AllAlike (same : Node → Node → Prop) : (nodes others : List Node) → Prop
  /-- Nothing is left in either row. -/
  | nil : AllAlike same [] []
  /-- Two nodes are the same, and so are those below them and those behind them. -/
  | cons {node twin : Node} {nodes others : List Node} (hsame : same node twin)
      (hbelow : AllAlike same node.children twin.children) (hrest : AllAlike same nodes others) :
      AllAlike same (node :: nodes) (twin :: others)

/-- The preorder of a row starts with that of its first tree. -/
theorem preorderAll_cons (depth : Nat) (node : Node) (nodes : List Node) :
    preorderAll depth (node :: nodes) =
      (depth, node) :: (preorderAll (depth + 1) node.children ++ preorderAll depth nodes) := by
  obtain ⟨_, _, _, _, _, _⟩ := node
  rw [preorderAll, preorderFrom, List.cons_append]
  rfl

/-- The way through a row starts with that through its first tree. -/
theorem visitsOfAll_cons (node : Node) (nodes : List Node) :
    visitsOfAll (node :: nodes) =
      .enter node :: (visitsOfAll node.children ++ .leave node :: visitsOfAll nodes) := by
  obtain ⟨_, _, _, _, _, _⟩ := node
  rw [visitsOfAll, visits, List.cons_append, List.append_assoc]
  rfl

namespace AllAlike

variable {same : Node → Node → Prop} {nodes others : List Node}

/-- Nodes that are the same in some way are so in a weaker one. -/
theorem imp {other : Node → Node → Prop} (himp : ∀ node twin, same node twin → other node twin)
    (h : AllAlike same nodes others) : AllAlike other nodes others := by
  induction h with
  | nil => exact .nil
  | cons hsame _ _ ihbelow ihrest => exact .cons (himp _ _ hsame) ihbelow ihrest

/-- Rows of one shape stay so with further ones behind them. -/
theorem append {later otherLater : List Node} (h : AllAlike same nodes others)
    (hlater : AllAlike same later otherLater) :
    AllAlike same (nodes ++ later) (others ++ otherLater) := by
  induction h with
  | nil => exact hlater
  | cons hsame hbelow _ _ ih => exact .cons hsame hbelow ih

/-- The trees of both rows correspond one by one. -/
theorem row (h : AllAlike same nodes others) : List.Forall₂ same nodes others := by
  induction h with
  | nil => exact .nil
  | cons hsame _ _ _ ih => exact .cons hsame ih

/-- The nodes of both preorders correspond one by one, at the same depths. -/
theorem preorder (h : AllAlike same nodes others) (depth : Nat) :
    List.Forall₂ (fun place other => other.1 = place.1 ∧ same place.2 other.2)
      (preorderAll depth nodes) (preorderAll depth others) := by
  induction h generalizing depth with
  | nil => exact .nil
  | cons hsame _ _ ihbelow ihrest =>
    rw [preorderAll_cons, preorderAll_cons]
    exact .cons ⟨rfl, hsame⟩ (List.rel_append (ihbelow _) (ihrest _))

/-- The steps through both rows correspond one by one, and so do the nodes directly below those that
are reached. -/
theorem visits (h : AllAlike same nodes others) :
    List.Forall₂ (Visit.Alike fun node twin =>
        same node twin ∧ List.Forall₂ same node.children twin.children)
      (visitsOfAll nodes) (visitsOfAll others) := by
  induction h with
  | nil => exact .nil
  | cons hsame hbelow _ ihbelow ihrest =>
    rw [visitsOfAll_cons, visitsOfAll_cons]
    have hnode := And.intro hsame hbelow.row
    exact .cons (.enter hnode) (List.rel_append ihbelow (.cons (.leave hnode) ihrest))

end AllAlike

end Node

namespace TextSurvey

variable {κ α : Type} {reading : TextSurvey κ α}

/-- A reading goes by the texts of nodes, of whatever kind they are. -/
def GoesByAllTexts (reading : TextSurvey κ α) : Prop :=
  ∀ {text other : Node → List Char} {node twin : Node}, SameHeaders text other node twin →
    other twin = text node → reading.Agrees text other node twin

/-- What goes by the texts of leaves goes by those of all nodes. -/
theorem GoesByTexts.goesByAllTexts (h : reading.GoesByTexts) : reading.GoesByAllTexts :=
  fun hheaders htext => h.agrees ⟨hheaders, fun _ => htext⟩

/-- Trees of one shape whose nodes have the same kinds and texts hold the same facts. -/
theorem GoesByAllTexts.along_alike {text other : Node → List Char} (h : reading.GoesByAllTexts)
    {nodes others : List Node}
    (hsame : Node.AllAlike (fun node twin => twin.kind = node.kind ∧ other twin = text node)
      nodes others) (context : κ) :
    reading.along other context (Node.visitsOfAll others) =
      reading.along text context (Node.visitsOfAll nodes) := by
  have hagrees {node twin : Node}
      (hboth : (twin.kind = node.kind ∧ other twin = text node) ∧
        List.Forall₂ (fun child twin => twin.kind = child.kind ∧ other twin = text child)
          node.children twin.children) : reading.Agrees text other node twin :=
    h (Node.sameHeaders_of_children hboth.1.1 hboth.2) hboth.1.2
  refine along_congr (hsame.visits.imp fun visit twin halike => ?_) context
  cases halike with
  | enter hboth => exact .enter (hagrees hboth)
  | leave hboth => exact .leave (hagrees hboth)

end TextSurvey

end CorpusFacts
