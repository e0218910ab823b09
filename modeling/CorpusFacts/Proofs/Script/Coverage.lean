import CorpusFacts.Proofs.Script.Pieces
import CorpusFacts.Proofs.Script.Spelling
import CorpusFacts.Proofs.Syntax.Nodes

/-!
# What the tree of a script covers

Every token of a script has one place in its tree: in a single leaf, as a brace of a single block,
or, if it is a separator, outside of all leaves. The proof follows how the outline is spelled; that
tokens lie one behind the other keeps those of one item away from the nodes of all others.
-/

namespace CorpusFacts.Script

/-- Tokens one behind the other, none of them empty. -/
structure Ordered (tokens : List Token) : Prop where
  /-- Each token ends before the later ones start. -/
  apart : tokens.Pairwise fun first second => first.stop ≤ second.start
  /-- Each token has a character. -/
  proper : ∀ token ∈ tokens, token.start < token.stop

namespace Ordered

variable {first second : List Token}

theorem left (h : Ordered (first ++ second)) : Ordered first :=
  ⟨(List.pairwise_append.mp h.apart).1, fun token htoken => h.proper token (by simp [htoken])⟩

theorem right (h : Ordered (first ++ second)) : Ordered second :=
  ⟨(List.pairwise_append.mp h.apart).2.1, fun token htoken => h.proper token (by simp [htoken])⟩

/-- What comes first ends before what comes second starts. -/
theorem across (h : Ordered (first ++ second)) {early late : Token} (hearly : early ∈ first)
    (hlate : late ∈ second) : early.stop ≤ late.start :=
  (List.pairwise_append.mp h.apart).2.2 early hearly late hlate

theorem tail {token : Token} (h : Ordered (token :: second)) : Ordered second :=
  right (show Ordered ([token] ++ second) from h)

/-- No token starts before the first one. -/
theorem start_le {token other : Token} (h : Ordered (token :: second))
    (hother : other ∈ token :: second) : token.start ≤ other.start := by
  have hproper := h.proper token (List.mem_cons_self ..)
  rcases List.mem_cons.mp hother with rfl | hother
  · exact le_rfl
  · have := List.rel_of_pairwise_cons h.apart hother
    omega

/-- No token ends behind the last one. -/
theorem stop_le {token other : Token} (h : Ordered (first ++ [token]))
    (hother : other ∈ first ++ [token]) : other.stop ≤ token.stop := by
  have hproper := h.proper token (by simp)
  rcases List.mem_append.mp hother with hother | hother
  · have := h.across hother (List.mem_singleton_self token)
    omega
  · rw [List.mem_singleton.mp hother]

end Ordered

/-- The tokens of a script lie one behind the other. -/
theorem tokens_ordered {dialect : Dialect} {source : List Char} {found : List Token}
    (h : tokens dialect source = .ok found) : Ordered found := by
  obtain ⟨cut, hreads, _, rfl⟩ := tokens_eq_ok_iff.mp h
  exact ⟨tokensFrom_pairwise 0 1 cut, fun token => start_lt_stop hreads.text_ne_nil⟩

/-- The last token of a statement or header that is no line break; only line breaks follow it, and
its node ends with it. -/
theorem stopOf_last {row : List Token} (hne : row ≠ []) (hstart : StartsPlainly row) :
    ∃ core last breaks, row = core ++ last :: breaks ∧ last.kind ≠ .newline ∧
      (∀ token ∈ breaks, token.kind = .newline) ∧ stopOf row = last.stop := by
  have hsplit := List.takeWhile_append_dropWhile (p := (·.kind == .newline)) (l := row.reverse)
  have hbreaks : ∀ token ∈ row.reverse.takeWhile (·.kind == .newline), token.kind = .newline :=
    fun token htoken => by simpa using List.mem_takeWhile_imp htoken
  cases hdrop : row.reverse.dropWhile (·.kind == .newline) with
  | nil =>
    obtain ⟨first, rest, rfl⟩ := List.exists_cons_of_ne_nil hne
    rw [hdrop, List.append_nil] at hsplit
    have hfirst : first.kind = .newline := hbreaks first (by rw [hsplit]; simp)
    have := hstart first rfl
    simp [hfirst] at this
  | cons last core =>
    rw [hdrop] at hsplit
    have hlast : (last.kind == .newline) = false := by
      have := List.head?_dropWhile_not (·.kind == .newline) row.reverse
      rw [hdrop] at this
      simpa using this
    refine ⟨core.reverse, last, (row.reverse.takeWhile (·.kind == .newline)).reverse, ?_,
      by simpa using hlast, fun token htoken => hbreaks token (by simpa using htoken), ?_⟩
    · simpa using (congrArg List.reverse hsplit).symm
    · simp only [stopOf, hdrop, List.head?_cons]

/-- The node of a statement or header starts and ends with two of its tokens, and covers all of them
but line breaks at the end, which it avoids. -/
theorem nodeOver_range (kind : NodeKind) (role : Option Role) {row : List Token}
    (hne : row ≠ []) (hstart : StartsPlainly row) (hrow : Ordered row) :
    ∃ node, nodeOver kind role row = some node ∧ node.kind = kind ∧ node.children = [] ∧
      (∃ first ∈ row, node.start = first.start) ∧ (∃ last ∈ row, node.stop = last.stop) ∧
      ∀ token ∈ row, node.covers token = true ∨
        token.kind = .newline ∧ node.avoids token = true := by
  obtain ⟨first, rest, rfl⟩ := List.exists_cons_of_ne_nil hne
  obtain ⟨core, last, breaks, hsplit, _, hbreaks, hstop⟩ := stopOf_last hne hstart
  refine ⟨_, rfl, rfl, rfl, ⟨first, List.mem_cons_self .., rfl⟩,
    ⟨last, by rw [hsplit]; simp, hstop⟩, ?_⟩
  intro token htoken
  have hfirst : first.start ≤ token.start := hrow.start_le htoken
  rw [hsplit] at htoken hrow
  rw [Node.covers_iff, Node.avoids_iff]
  change (first.start ≤ token.start ∧ token.stop ≤ stopOf (first :: rest)) ∨
    token.kind = .newline ∧ (token.stop ≤ first.start ∨ stopOf (first :: rest) ≤ token.start)
  rw [hstop]
  rcases List.mem_append.mp htoken with hcore | hrest
  · have := hrow.across hcore (List.mem_cons_self ..)
    have := hrow.proper last (by simp)
    exact Or.inl ⟨hfirst, by omega⟩
  · rcases List.mem_cons.mp hrest with rfl | hbreak
    · exact Or.inl ⟨hfirst, le_rfl⟩
    · have := List.rel_of_pairwise_cons hrow.right.apart hbreak
      exact Or.inr ⟨hbreaks token hbreak, Or.inr this⟩

/-- The number of leaves at and below some nodes that cover a token. -/
def leafCount (nodes : List Node) (token : Token) : Nat :=
  (Node.listed nodes).countP fun node => node.covers token && node.kind.isLeaf

/-- The number of blocks at and below some nodes that have a token as a brace. -/
def braceCount (nodes : List Node) (token : Token) : Nat :=
  (Node.listed nodes).countP fun node => node.hasBrace token && node.kind == .block

/-- A token lies outside of some nodes and of all nodes below them. -/
def Apart (nodes : List Node) (token : Token) : Prop :=
  ∀ node ∈ Node.listed nodes, node.avoids token = true

/-- A token has one place among some nodes and those below. -/
inductive Placed (nodes : List Node) (token : Token) : Prop
  /-- It lies in one leaf, and outside of all others. -/
  | leaf (hleaves : leafCount nodes token = 1) (hbraces : braceCount nodes token = 0)
      (hothers : ∀ node ∈ Node.listed nodes, node.kind.isLeaf = true →
        node.covers token = true ∨ node.avoids token = true)
      (htop : ∃ node ∈ nodes, node.covers token = true)
  /-- It is a brace of one block, and lies outside of all leaves. -/
  | brace (hbraces : braceCount nodes token = 1)
      (hothers : ∀ node ∈ Node.listed nodes, node.kind.isLeaf = true → node.avoids token = true)
      (htop : ∃ node ∈ nodes, node.covers token = true)
  /-- It is a separator outside of all leaves. -/
  | between (hseparator : token.kind.isSeparator = true) (hbraces : braceCount nodes token = 0)
      (hothers : ∀ node ∈ Node.listed nodes, node.kind.isLeaf = true → node.avoids token = true)

theorem leafCount_append (first second : List Node) (token : Token) :
    leafCount (first ++ second) token = leafCount first token + leafCount second token := by
  simp [leafCount]

theorem braceCount_append (first second : List Node) (token : Token) :
    braceCount (first ++ second) token = braceCount first token + braceCount second token := by
  simp [braceCount]

namespace Apart

variable {nodes : List Node} {token : Token}

/-- No leaf covers a token that lies outside of all nodes. -/
theorem leafCount_eq (h : Apart nodes token) (htoken : token.start < token.stop) :
    leafCount nodes token = 0 := by
  rw [leafCount, List.countP_eq_zero]
  intro node hnode
  simp [Node.not_covers_of_avoids htoken (h node hnode)]

/-- No block has a brace outside of all nodes. -/
theorem braceCount_eq (h : Apart nodes token) (htoken : token.start < token.stop) :
    braceCount nodes token = 0 := by
  rw [braceCount, List.countP_eq_zero]
  intro node hnode
  simp [Node.hasBrace, Node.not_covers_of_avoids htoken (h node hnode)]

theorem append {others : List Node} (h : Apart nodes token) (hothers : Apart others token) :
    Apart (nodes ++ others) token := by
  intro node hnode
  rw [Node.listed_append] at hnode
  exact (List.mem_append.mp hnode).elim (h node) (hothers node)

end Apart

/-- A brace in the range of a block that lies outside of all nodes inside is one of the block. -/
theorem hasBrace_of_apart {block : Node} {token : Token}
    (hbrace : token.kind = .opening .curly ∨ token.kind = .closing .curly)
    (hcovers : block.covers token = true) (hinner : Apart block.children token)
    (htoken : token.start < token.stop) : block.hasBrace token = true := by
  have hnone : block.children.any (·.covers token) = false := by
    rw [List.any_eq_false]
    intro child hchild
    simp [Node.not_covers_of_avoids htoken (hinner child (Node.mem_listed hchild))]
  rcases hbrace with hbrace | hbrace <;> simp [Node.hasBrace, hbrace, hcovers, hnone]

/-- A token outside of a block is no brace of it. -/
theorem not_hasBrace_of_avoids {block : Node} {token : Token} (htoken : token.start < token.stop)
    (h : block.avoids token = true) : block.hasBrace token = false := by
  simp [Node.hasBrace, Node.not_covers_of_avoids htoken h]

/-- Of tokens outside of a block none is a brace of it. -/
theorem filter_hasBrace_of_avoids {block : Node} {tokens : List Token}
    (hproper : ∀ token ∈ tokens, token.start < token.stop)
    (h : ∀ token ∈ tokens, block.avoids token = true) : tokens.filter block.hasBrace = [] := by
  rw [List.filter_eq_nil_iff]
  intro token htoken
  simp [not_hasBrace_of_avoids (hproper token htoken) (h token htoken)]

namespace Placed

variable {nodes others : List Node} {token : Token}

/-- Further nodes that a token lies outside of do not change its place. -/
theorem extend {all : List Node} (h : Placed nodes token)
    (hleaves : leafCount all token = leafCount nodes token)
    (hbraces : braceCount all token = braceCount nodes token)
    (hlisted : ∀ node ∈ Node.listed all, node ∈ Node.listed nodes ∨ node.avoids token = true)
    (hnodes : ∀ node ∈ nodes, node ∈ all) : Placed all token := by
  cases h with
  | leaf hone hnone hcovered htop =>
    obtain ⟨node, hnode, hcovers⟩ := htop
    refine .leaf (hleaves.trans hone) (hbraces.trans hnone) ?_ ⟨node, hnodes node hnode, hcovers⟩
    intro node hnode hleaf
    rcases hlisted node hnode with hnode | havoids
    · exact hcovered node hnode hleaf
    · exact Or.inr havoids
  | brace hone hothers htop =>
    obtain ⟨node, hnode, hcovers⟩ := htop
    refine .brace (hbraces.trans hone) ?_ ⟨node, hnodes node hnode, hcovers⟩
    exact fun node hnode hleaf => (hlisted node hnode).elim (hothers node · hleaf) id
  | between hseparator hnone hothers =>
    refine .between hseparator (hbraces.trans hnone) ?_
    exact fun node hnode hleaf => (hlisted node hnode).elim (hothers node · hleaf) id

/-- Nodes behind that a token lies outside of do not change its place. -/
theorem append_apart (h : Placed nodes token) (hothers : Apart others token)
    (htoken : token.start < token.stop) : Placed (nodes ++ others) token := by
  refine h.extend ?_ ?_ ?_ (fun node hnode => List.mem_append_left _ hnode)
  · rw [leafCount_append, hothers.leafCount_eq htoken, Nat.add_zero]
  · rw [braceCount_append, hothers.braceCount_eq htoken, Nat.add_zero]
  · intro node hnode
    rw [Node.listed_append] at hnode
    exact (List.mem_append.mp hnode).imp_right (hothers node)

/-- Nodes before that a token lies outside of do not change its place. -/
theorem apart_append (h : Placed nodes token) (hothers : Apart others token)
    (htoken : token.start < token.stop) : Placed (others ++ nodes) token := by
  refine h.extend ?_ ?_ ?_ (fun node hnode => List.mem_append_right _ hnode)
  · rw [leafCount_append, hothers.leafCount_eq htoken, Nat.zero_add]
  · rw [braceCount_append, hothers.braceCount_eq htoken, Nat.zero_add]
  · intro node hnode
    rw [Node.listed_append] at hnode
    exact (List.mem_append.mp hnode).symm.imp_right (hothers node)

/-- A token that has its place among the children of a block is no brace of the block itself. -/
theorem not_hasBrace (h : Placed nodes token) (block : Node)
    (hnodes : ∀ node ∈ nodes, node ∈ block.children) : block.hasBrace token = false := by
  have hinner (htop : ∃ node ∈ nodes, node.covers token = true) :
      block.hasBrace token = false := by
    obtain ⟨node, hnode, hcovers⟩ := htop
    have hany : block.children.any (·.covers token) = true :=
      List.any_eq_true.mpr ⟨node, hnodes node hnode, hcovers⟩
    simp [Node.hasBrace, hany]
  cases h with
  | leaf _ _ _ htop => exact hinner htop
  | brace _ _ htop => exact hinner htop
  | between hseparator _ _ =>
    rcases TokenKind.isSeparator_eq_true_iff.mp hseparator with hkind | hkind <;>
      simp [Node.hasBrace, hkind]

/-- A token keeps its place in a block that holds the nodes around it. -/
theorem inBlock {block : Node} (h : Placed block.children token) (hkind : block.kind = .block)
    (hcovers : block.covers token = true) : Placed [block] token := by
  have hleaf : ∀ node ∈ Node.listed [block], node.kind.isLeaf = true →
      node ∈ Node.listed block.children := by
    intro node hnode hleaf
    rcases List.mem_cons.mp (by simpa using hnode) with rfl | hnode
    · simp [hkind, NodeKind.isLeaf] at hleaf
    · exact hnode
  have hleaves : leafCount [block] token = leafCount block.children token := by
    simp [leafCount, hkind, NodeKind.isLeaf]
  have hbraces : braceCount [block] token = braceCount block.children token := by
    simp [braceCount, h.not_hasBrace block fun node hnode => hnode]
  cases h with
  | leaf hone hnone hcovered htop =>
    exact .leaf (hleaves.trans hone) (hbraces.trans hnone)
      (fun node hnode h => hcovered node (hleaf node hnode h) h) ⟨block, by simp, hcovers⟩
  | brace hone hothers htop =>
    exact .brace (hbraces.trans hone) (fun node hnode h => hothers node (hleaf node hnode h) h)
      ⟨block, by simp, hcovers⟩
  | between hseparator hnone hothers =>
    exact .between hseparator (hbraces.trans hnone)
      fun node hnode h => hothers node (hleaf node hnode h) h

/-- A brace of a block that lies outside of all nodes inside has its place. -/
theorem ofBrace {block : Node} (hkind : block.kind = .block) (hown : block.hasBrace token = true)
    (hinner : Apart block.children token) (htoken : token.start < token.stop) :
    Placed [block] token := by
  have hcovers : block.covers token = true := by
    simp only [Node.hasBrace, Bool.and_eq_true] at hown
    exact hown.1.2
  refine .brace ?_ ?_ ⟨block, by simp, hcovers⟩
  · have := hinner.braceCount_eq htoken
    simpa [braceCount, hown, hkind] using this
  · intro node hnode hleaf
    rcases List.mem_cons.mp (by simpa using hnode) with rfl | hnode
    · simp [hkind, NodeKind.isLeaf] at hleaf
    · exact hinner node hnode

end Placed

/-- Every node of some items starts and ends with one of the tokens that spell them. -/
def Within (nodes : List Node) (tokens : List Token) : Prop :=
  ∀ node ∈ Node.listed nodes, (∃ first ∈ tokens, node.start = first.start) ∧
    ∃ last ∈ tokens, node.stop = last.stop

namespace Within

variable {nodes : List Node} {tokens : List Token}

theorem mono {others : List Token} (h : Within nodes tokens)
    (hsub : ∀ token ∈ tokens, token ∈ others) : Within nodes others := by
  intro node hnode
  obtain ⟨⟨first, hfirst, hstart⟩, last, hlast, hstop⟩ := h node hnode
  exact ⟨⟨first, hsub first hfirst, hstart⟩, last, hsub last hlast, hstop⟩

theorem append {others : List Node} (h : Within nodes tokens) (hothers : Within others tokens) :
    Within (nodes ++ others) tokens := by
  intro node hnode
  rw [Node.listed_append] at hnode
  exact (List.mem_append.mp hnode).elim (h node) (hothers node)

/-- A token before the tokens of some nodes lies outside of these nodes. -/
theorem apart_before {token : Token} (h : Within nodes tokens)
    (hbefore : ∀ other ∈ tokens, token.stop ≤ other.start) : Apart nodes token := by
  intro node hnode
  obtain ⟨⟨first, hfirst, hstart⟩, _⟩ := h node hnode
  have := hbefore first hfirst
  exact Node.avoids_iff.mpr (Or.inl (by omega))

/-- A token behind the tokens of some nodes lies outside of these nodes. -/
theorem apart_after {token : Token} (h : Within nodes tokens)
    (hafter : ∀ other ∈ tokens, other.stop ≤ token.start) : Apart nodes token := by
  intro node hnode
  obtain ⟨_, last, hlast, hstop⟩ := h node hnode
  have := hafter last hlast
  exact Node.avoids_iff.mpr (Or.inr (by omega))

/-- Nodes of earlier tokens end before nodes of later tokens start. -/
theorem across {others : List Node} {later : List Token} (h : Within nodes tokens)
    (hothers : Within others later) (hordered : Ordered (tokens ++ later)) {node other : Node}
    (hnode : node ∈ Node.listed nodes) (hother : other ∈ Node.listed others) :
    node.stop ≤ other.start := by
  obtain ⟨_, last, hlast, hstop⟩ := h node hnode
  obtain ⟨⟨first, hfirst, hstart⟩, _⟩ := hothers other hother
  have := hordered.across hlast hfirst
  omega

end Within

/-- The node of a statement or header lies within its tokens. -/
theorem row_within (kind : NodeKind) (role : Option Role) {row : List Token}
    (hstart : StartsPlainly row) (hrow : Ordered row) :
    Within (nodeOver kind role row).toList row := by
  cases row with
  | nil => simp [Within, nodeOver]
  | cons first rest =>
    obtain ⟨node, hnode, _, hchildren, hfirst, hlast, _⟩ :=
      nodeOver_range kind role (List.cons_ne_nil first rest) hstart hrow
    intro other hother
    obtain rfl : other = node := by simpa [hnode, hchildren] using hother
    exact ⟨hfirst, hlast⟩

/-- The node of a statement or header has the kind it was made with, and nothing is below it. -/
theorem row_kind {kind : NodeKind} {role : Option Role} {row : List Token} {node : Node}
    (h : node ∈ Node.listed (nodeOver kind role row).toList) : node.kind = kind := by
  cases row with
  | nil => simp [nodeOver] at h
  | cons first rest =>
    simp only [nodeOver, Option.toList_some, Node.listed_cons, Node.children, Node.listed_nil,
      List.append_nil, List.mem_singleton] at h
    rw [h]
    rfl

/-- The tokens of a statement or header have their place in its node. -/
theorem row_placed {kind : NodeKind} (role : Option Role) {row : List Token} {token : Token}
    (hleaf : kind.isLeaf = true) (hstart : StartsPlainly row) (hrow : Ordered row)
    (htoken : token ∈ row) : Placed (nodeOver kind role row).toList token := by
  obtain ⟨node, hnode, hkind, hchildren, _, _, hcovers⟩ :=
    nodeOver_range kind role (List.ne_nil_of_mem htoken) hstart hrow
  have hblock : (node.kind == .block) = false := by
    rw [hkind]
    cases kind <;> simp_all [NodeKind.isLeaf]
  rw [hnode, Option.toList_some]
  have hnone : braceCount [node] token = 0 := by simp [braceCount, hchildren, hblock]
  rcases hcovers token htoken with hcovers | ⟨hnewline, havoids⟩
  · refine .leaf ?_ hnone ?_ ⟨node, by simp, hcovers⟩
    · simp [leafCount, hchildren, hcovers, hkind, hleaf]
    · intro other hother _
      obtain rfl : other = node := by simpa [hchildren] using hother
      exact Or.inl hcovers
  · refine .between (by simp [hnewline]) hnone ?_
    intro other hother _
    obtain rfl : other = node := by simpa [hchildren] using hother
    exact havoids

/-- The node of a statement comes before those of the items behind it. -/
theorem nodesOf_leaf (kind : LeafKind) (statement : List Token) (items : List Item) :
    nodesOf (.leaf kind statement :: items) =
      (nodeOver kind.nodeKind none statement).toList ++ nodesOf items := by
  rw [nodesOf, Item.node?]

/-- A node is that of a block: it reaches from the first token of the block to the closing brace,
and holds the nodes of the header and of what is inside. -/
structure IsBlock (block : Node) (header : List Token) (opening : Token) (body : List Item)
    (closing : Token) : Prop where
  /-- It is a block. -/
  kind : block.kind = .block
  /-- It starts with its header, or else with its opening brace. -/
  start : block.start = (header.head?.getD opening).start
  /-- It ends with its closing brace. -/
  stop : block.stop = closing.stop
  /-- It holds the nodes of its header and of what is inside. -/
  children : block.children =
    (nodeOver .blockHeader (some .header) header).toList ++ nodesOf body

/-- The node of a block comes before those of the items behind it. -/
theorem nodesOf_block (header : List Token) (opening : Token) (body : List Item) (closing : Token)
    (items : List Item) :
    ∃ block, nodesOf (.block header opening body closing :: items) = [block] ++ nodesOf items ∧
      IsBlock block header opening body closing := by
  refine ⟨.mk .block none (header.head?.getD opening).start closing.stop
    (header.head?.getD opening).line _, ?_, rfl, rfl, rfl, rfl⟩
  rw [nodesOf, Item.node?]
  rfl

namespace IsBlock

variable {block : Node} {header inner : List Token} {opening closing : Token} {body : List Item}

/-- The node of a block covers the tokens of the block. -/
theorem covers (h : IsBlock block header opening body closing)
    (hordered : Ordered (header ++ opening :: (inner ++ [closing]))) {token : Token}
    (htoken : token ∈ header ++ opening :: (inner ++ [closing])) : block.covers token = true := by
  rw [Node.covers_iff, h.start, h.stop]
  constructor
  · cases header with
    | nil => exact hordered.start_le htoken
    | cons first rest => exact hordered.start_le htoken
  · rw [← List.cons_append, ← List.append_assoc] at hordered htoken
    exact hordered.stop_le htoken

/-- The nodes of a block lie within its tokens. -/
theorem within (h : IsBlock block header opening body closing) (hstart : StartsPlainly header)
    (hordered : Ordered header) (hbody : Within (nodesOf body) inner) :
    Within [block] (header ++ opening :: (inner ++ [closing])) := by
  intro node hnode
  rcases List.mem_cons.mp (by simpa using hnode) with rfl | hnode
  · refine ⟨⟨header.head?.getD opening, ?_, h.start⟩, closing, by simp, h.stop⟩
    cases header <;> simp
  · rw [h.children] at hnode
    exact ((row_within _ _ hstart hordered).mono fun token htoken => by simp [htoken]).append
      (hbody.mono fun token htoken => by simp [htoken]) node (by simpa using hnode)

/-- The opening brace of a block lies between the nodes of the header and of what is inside. -/
theorem opening_apart (h : IsBlock block header opening body closing)
    (hstart : StartsPlainly header) (hbody : Within (nodesOf body) inner)
    (hordered : Ordered (header ++ opening :: (inner ++ [closing]))) :
    Apart block.children opening := by
  rw [h.children]
  refine Apart.append ?_ ?_
  · exact (row_within _ _ hstart hordered.left).apart_after fun other hother =>
      hordered.across hother (List.mem_cons_self ..)
  · exact hbody.apart_before fun other hother =>
      List.rel_of_pairwise_cons hordered.right.apart (by simp [hother])

/-- The closing brace of a block lies behind the nodes of the header and of what is inside. -/
theorem closing_apart (h : IsBlock block header opening body closing)
    (hstart : StartsPlainly header) (hbody : Within (nodesOf body) inner)
    (hordered : Ordered (header ++ opening :: (inner ++ [closing]))) :
    Apart block.children closing := by
  rw [h.children]
  refine Apart.append ?_ ?_
  · exact (row_within _ _ hstart hordered.left).apart_after fun other hother =>
      hordered.across hother (by simp)
  · exact hbody.apart_after fun other hother => hordered.right.tail.across hother (by simp)

/-- The tokens of a block have their place in it, if those inside have theirs among its items. -/
theorem placed (h : IsBlock block header opening body closing) (hstart : StartsPlainly header)
    (hopening : opening.kind = .opening .curly) (hclosing : closing.kind = .closing .curly)
    (hbody : Within (nodesOf body) inner)
    (hordered : Ordered (header ++ opening :: (inner ++ [closing])))
    (hinner : ∀ token ∈ inner, Placed (nodesOf body) token) {token : Token}
    (htoken : token ∈ header ++ opening :: (inner ++ [closing])) : Placed [block] token := by
  have hcovers := h.covers hordered htoken
  have hproper := hordered.proper token htoken
  rcases List.mem_append.mp htoken with hheader | htoken
  · refine Placed.inBlock ?_ h.kind hcovers
    rw [h.children]
    exact (row_placed _ rfl hstart hordered.left hheader).append_apart
      (hbody.apart_before fun other hother => hordered.across hheader (by simp [hother])) hproper
  rcases List.mem_cons.mp htoken with rfl | htail
  · have hapart := h.opening_apart hstart hbody hordered
    exact .ofBrace h.kind (hasBrace_of_apart (Or.inl hopening) hcovers hapart hproper) hapart
      hproper
  rcases List.mem_append.mp htail with hmem | hmem
  · refine Placed.inBlock ?_ h.kind hcovers
    rw [h.children]
    exact (hinner token hmem).apart_append ((row_within _ _ hstart hordered.left).apart_after
      fun other hother => hordered.across hother htoken) hproper
  · obtain rfl := List.mem_singleton.mp hmem
    have hapart := h.closing_apart hstart hbody hordered
    exact .ofBrace h.kind (hasBrace_of_apart (Or.inr hclosing) hcovers hapart hproper) hapart
      hproper

/-- Of its tokens a block has the two braces around what is inside as its own. -/
theorem braces (h : IsBlock block header opening body closing) (hstart : StartsPlainly header)
    (hopening : opening.kind = .opening .curly) (hclosing : closing.kind = .closing .curly)
    (hbody : Within (nodesOf body) inner)
    (hordered : Ordered (header ++ opening :: (inner ++ [closing])))
    (hinner : ∀ token ∈ inner, Placed (nodesOf body) token) :
    (header ++ opening :: (inner ++ [closing])).filter block.hasBrace = [opening, closing] := by
  have hopens : block.hasBrace opening = true :=
    hasBrace_of_apart (Or.inl hopening) (h.covers hordered (by simp))
      (h.opening_apart hstart hbody hordered) (hordered.proper opening (by simp))
  have hcloses : block.hasBrace closing = true :=
    hasBrace_of_apart (Or.inr hclosing) (h.covers hordered (by simp))
      (h.closing_apart hstart hbody hordered) (hordered.proper closing (by simp))
  have hheader : header.filter block.hasBrace = [] := by
    rw [List.filter_eq_nil_iff]
    intro token htoken
    have hplaced := row_placed (some .header) (show NodeKind.blockHeader.isLeaf = true from rfl)
      hstart hordered.left htoken
    have := hplaced.not_hasBrace block fun node hnode => by simp [h.children, hnode]
    simp [this]
  have hnone : inner.filter block.hasBrace = [] := by
    rw [List.filter_eq_nil_iff]
    intro token htoken
    have := (hinner token htoken).not_hasBrace block
      fun node hnode => by simp [h.children, hnode]
    simp [this]
  simp [hheader, hnone, hopens, hcloses]

/-- A block inside of another one has no braces but those among the tokens inside. -/
theorem braces_inside (hbody : Within (nodesOf body) inner)
    (hordered : Ordered (header ++ opening :: (inner ++ [closing]))) {node : Node}
    (hnode : node ∈ Node.listed (nodesOf body)) :
    (header ++ opening :: (inner ++ [closing])).filter node.hasBrace =
      inner.filter node.hasBrace := by
  rw [List.append_cons] at hordered ⊢
  have hbefore : (header ++ [opening]).filter node.hasBrace = [] :=
    filter_hasBrace_of_avoids hordered.left.proper fun token htoken =>
      hbody.apart_before (fun other hother => hordered.across htoken (by simp [hother])) node hnode
  have hafter : [closing].filter node.hasBrace = [] :=
    filter_hasBrace_of_avoids hordered.right.right.proper fun token htoken =>
      hbody.apart_after (fun other hother => hordered.right.across hother htoken) node hnode
  rw [List.filter_append, hbefore, List.nil_append, List.filter_append, hafter, List.append_nil]

end IsBlock

/-- The tokens of a block and those behind it. -/
theorem block_regroup (header inner tokens : List Token) (opening closing : Token) :
    header ++ opening :: (inner ++ closing :: tokens) =
      (header ++ opening :: (inner ++ [closing])) ++ tokens := by
  simp

namespace Spells

/-- The nodes of an outline lie within the tokens that spell it. -/
theorem within {items : List Item} {tokens : List Token} (h : Spells items tokens)
    (hordered : Ordered tokens) : Within (nodesOf items) tokens := by
  induction h with
  | nil => simp [Within, nodesOf]
  | separator _ _ ih =>
    exact (ih hordered.tail).mono fun token htoken => List.mem_cons_of_mem _ htoken
  | leaf _ hstart _ ih =>
    rw [nodesOf_leaf]
    exact ((row_within _ _ hstart hordered.left).mono fun token htoken => by simp [htoken]).append
      ((ih hordered.right).mono fun token htoken => by simp [htoken])
  | @block body items header inner tokens opening closing hstart _ _ _ _ ihbody ihrest =>
    obtain ⟨block, hnodes, hblock⟩ := nodesOf_block header opening body closing items
    have hinner := hordered.right.tail
    have hwithin := hblock.within hstart hordered.left (ihbody hinner.left)
    rw [hnodes]
    exact (hwithin.mono fun token htoken => by simpa [or_assoc] using Or.inl htoken).append
      ((ihrest hinner.right.tail).mono fun token htoken => by simp [htoken])

/-- Every token of an outline has one place among its nodes. -/
theorem placed {items : List Item} {tokens : List Token} (h : Spells items tokens)
    (hordered : Ordered tokens) : ∀ token ∈ tokens, Placed (nodesOf items) token := by
  induction h with
  | nil => simp
  | @separator items first tokens hseparator hrest ih =>
    intro token htoken
    rcases List.mem_cons.mp htoken with rfl | htoken
    · have hapart := (hrest.within hordered.tail).apart_before fun other hother =>
        List.rel_of_pairwise_cons hordered.apart hother
      exact .between hseparator (hapart.braceCount_eq (hordered.proper _ (by simp)))
        fun node hnode _ => hapart node hnode
    · exact ih hordered.tail token htoken
  | @leaf items statement tokens hne hstart hrest ih =>
    intro token htoken
    have hproper := hordered.proper token htoken
    rw [nodesOf_leaf]
    rcases List.mem_append.mp htoken with htoken | htoken
    · refine (row_placed _ ?_ hstart hordered.left htoken).append_apart ?_ hproper
      · cases Draft.leafKind statement <;> rfl
      · exact (hrest.within hordered.right).apart_before fun other => hordered.across htoken
    · refine (ih hordered.right token htoken).apart_append ?_ hproper
      exact (row_within _ _ hstart hordered.left).apart_after fun other hother =>
        hordered.across hother htoken
  | @block body items header inner tokens opening closing hstart hopening hbody hclosing hrest
      ihbody ihrest =>
    intro token htoken
    obtain ⟨block, hnodes, hblock⟩ := nodesOf_block header opening body closing items
    have hproper := hordered.proper token htoken
    rw [block_regroup] at hordered htoken
    have hinner := hordered.left.right.tail.left
    have hwithin := hbody.within hinner
    rw [hnodes]
    rcases List.mem_append.mp htoken with htoken | htoken
    · have hplaced := hblock.placed hstart hopening hclosing hwithin hordered.left (ihbody hinner)
        htoken
      exact hplaced.append_apart ((hrest.within hordered.right).apart_before fun other =>
        hordered.across htoken) hproper
    · refine (ihrest hordered.right token htoken).apart_append ?_ hproper
      exact (hblock.within hstart hordered.left.left hwithin).apart_after
        fun other hother => hordered.across hother htoken

/-- Of the tokens that spell an outline a block has two as its braces: one that opens it and one
that closes it. -/
theorem braces {items : List Item} {tokens : List Token} (h : Spells items tokens)
    (hordered : Ordered tokens) {node : Node} (hnode : node ∈ Node.listed (nodesOf items))
    (hkind : node.kind = .block) :
    ∃ opening closing, tokens.filter node.hasBrace = [opening, closing] ∧
      opening.kind = .opening .curly ∧ closing.kind = .closing .curly := by
  induction h with
  | nil => simp [nodesOf] at hnode
  | @separator items first tokens hseparator hrest ih =>
    have havoids := (hrest.within hordered.tail).apart_before
      (fun other hother => List.rel_of_pairwise_cons hordered.apart hother) node hnode
    obtain ⟨opening, closing, hfilter, hbraces⟩ := ih hordered.tail hnode
    refine ⟨opening, closing, ?_, hbraces⟩
    rw [List.filter_cons_of_neg, hfilter]
    simp [not_hasBrace_of_avoids (hordered.proper first (by simp)) havoids]
  | @leaf items statement tokens hne hstart hrest ih =>
    rw [nodesOf_leaf, Node.listed_append] at hnode
    rcases List.mem_append.mp hnode with hnode | hnode
    · have := row_kind hnode
      cases hleaf : Draft.leafKind statement <;> simp_all [LeafKind.nodeKind]
    · have hnone : statement.filter node.hasBrace = [] :=
        filter_hasBrace_of_avoids hordered.left.proper fun token htoken =>
          (hrest.within hordered.right).apart_before (fun other => hordered.across htoken)
            node hnode
      rw [List.filter_append, hnone, List.nil_append]
      exact ih hordered.right hnode
  | @block body items header inner tokens opening closing hstart hopening hbody hclosing hrest
      ihbody ihrest =>
    obtain ⟨block, hnodes, hblock⟩ := nodesOf_block header opening body closing items
    rw [block_regroup] at hordered ⊢
    have hinner := hordered.left.right.tail
    have hbodyWithin := hbody.within hinner.left
    have hwithin := hblock.within hstart hordered.left.left hbodyWithin
    rw [hnodes, Node.listed_append] at hnode
    rw [List.filter_append]
    rcases List.mem_append.mp hnode with hnode | hnode
    · have hlater : tokens.filter node.hasBrace = [] :=
        filter_hasBrace_of_avoids hordered.right.proper fun token htoken =>
          hwithin.apart_after (fun other hother => hordered.across hother htoken) node hnode
      rw [hlater, List.append_nil]
      rcases List.mem_cons.mp (by simpa using hnode) with rfl | hnode
      · exact ⟨opening, closing, hblock.braces hstart hopening hclosing hbodyWithin hordered.left
          (hbody.placed hinner.left), hopening, hclosing⟩
      rw [hblock.children, Node.listed_append] at hnode
      rcases List.mem_append.mp hnode with hnode | hnode
      · have := row_kind hnode
        simp [hkind] at this
      · rw [IsBlock.braces_inside hbodyWithin hordered.left hnode]
        exact ihbody hinner.left hnode
    · have hearlier : (header ++ opening :: (inner ++ [closing])).filter node.hasBrace = [] :=
        filter_hasBrace_of_avoids hordered.left.proper fun token htoken =>
          (hrest.within hordered.right).apart_before (fun other => hordered.across htoken)
            node hnode
      rw [hearlier, List.nil_append]
      exact ihrest hordered.right hnode

/-- Where earlier nodes end before later ones start, the leaves among all of them lie one behind
the other. -/
theorem leaves_append {nodes others : List Node}
    (hnodes : ((Node.listed nodes).filter (·.kind.isLeaf)).Pairwise (·.stop ≤ ·.start))
    (hothers : ((Node.listed others).filter (·.kind.isLeaf)).Pairwise (·.stop ≤ ·.start))
    (hacross : ∀ node ∈ Node.listed nodes, ∀ other ∈ Node.listed others,
      node.stop ≤ other.start) :
    ((Node.listed (nodes ++ others)).filter (·.kind.isLeaf)).Pairwise (·.stop ≤ ·.start) := by
  rw [Node.listed_append, List.filter_append, List.pairwise_append]
  exact ⟨hnodes, hothers, fun node hnode other hother =>
    hacross node (List.mem_filter.mp hnode).1 other (List.mem_filter.mp hother).1⟩

/-- The leaves of an outline lie one behind the other. -/
theorem leaves_pairwise {items : List Item} {tokens : List Token} (h : Spells items tokens)
    (hordered : Ordered tokens) :
    ((Node.listed (nodesOf items)).filter (·.kind.isLeaf)).Pairwise (·.stop ≤ ·.start) := by
  have hrow : ∀ (kind : NodeKind) (role : Option Role) (row : List Token),
      ((Node.listed (nodeOver kind role row).toList).filter (·.kind.isLeaf)).Pairwise
        (·.stop ≤ ·.start) := by
    intro kind role row
    cases row with
    | nil => simp [nodeOver]
    | cons first rest =>
      cases hleaf : kind.isLeaf <;> simp [nodeOver, Node.children, Node.kind, hleaf]
  induction h with
  | nil => simp [nodesOf]
  | separator _ _ ih => exact ih hordered.tail
  | leaf _ hstart hrest ih =>
    rw [nodesOf_leaf]
    have hrests := hrest.within hordered.right
    exact leaves_append (hrow _ _ _) (ih hordered.right) fun node hnode other hother =>
      (row_within _ _ hstart hordered.left).across hrests hordered hnode hother
  | @block body items header inner tokens opening closing hstart hopening hbody hclosing hrest
      ihbody ihrest =>
    obtain ⟨block, hnodes, hblock⟩ := nodesOf_block header opening body closing items
    rw [block_regroup] at hordered
    have hinner := hordered.left.right.tail.left
    have hbodyWithin := hbody.within hinner
    have hheading := row_within .blockHeader (some .header) hstart
      hordered.left.left
    have hinside := leaves_append (hrow .blockHeader (some .header) header) (ihbody hinner)
      fun node hnode other hother => hheading.across
        (hbodyWithin.mono fun token htoken => by simp [htoken]) hordered.left hnode hother
    rw [hnodes]
    refine leaves_append ?_ (ihrest hordered.right) fun node hnode other hother =>
      (hblock.within hstart hordered.left.left hbodyWithin).across
        (hrest.within hordered.right) hordered hnode hother
    rw [← hblock.children] at hinside
    simpa [hblock.kind, NodeKind.isLeaf] using hinside

end Spells

end CorpusFacts.Script
