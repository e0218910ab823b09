import CorpusFacts.Proofs.Script.Coverage

/-!
# The shape of the tree of a script

The root of a tree spans its whole source. Every other node starts where one token starts and ends
where one ends, so both ends lie between two characters and its text is found again by its range.
Children lie in their parent, one behind the other; only blocks have any, and the header of a block
comes first, before the opening brace.
-/

namespace CorpusFacts

/-- The range of a node is a part of a source: it starts and ends between two characters, there is
text between, and the line of the node is counted from the start of the source. -/
structure Node.LiesIn (node : Node) (source : List Char) : Prop where
  /-- The node has a byte. -/
  proper : node.start < node.stop
  /-- The node ends in the source. -/
  inside : node.stop ≤ Text.byteLength source
  /-- What stands before the node, the text of the node, and what stands behind it. -/
  part : ∃ before text after, source = before ++ text ++ after ∧ text ≠ [] ∧
    node.start = Text.byteLength before ∧ node.stop = Text.byteLength (before ++ text) ∧
    node.line = 1 + Text.newlines before ∧
    ∀ unit : SourceUnit, unit.source = source → unit.text node = text

/-- The children of a node lie in it, one behind the other. -/
structure Node.HoldsChildren (node : Node) : Prop where
  /-- No child starts before the node or ends behind it. -/
  within : ∀ child ∈ node.children, node.start ≤ child.start ∧ child.stop ≤ node.stop
  /-- Each child ends before the next one starts. -/
  apart : node.children.Pairwise (·.stop ≤ ·.start)

/-- A block has one header at most. It is the first child and ends before the opening brace, and
every other child starts behind that brace. -/
def Node.IsHeaded (block : Node) (opening : Token) : Prop :=
  opening.kind = .opening .curly ∧ block.hasBrace opening = true ∧
    ∃ (header? : Option Node) (body : List Node), block.children = header?.toList ++ body ∧
      (∀ header ∈ header?, header.kind = .blockHeader ∧ header.stop ≤ opening.start) ∧
      ∀ child ∈ body, child.kind ≠ .blockHeader ∧ opening.stop ≤ child.start

namespace Script

/-- A node made of some tokens: it starts and ends with one of them, its children lie in it, and it
has children only if it is a block, with the header before the opening brace. -/
structure SpansTokens (tokens : List Token) (node : Node) : Prop where
  /-- The node has the start and the line of a token. -/
  starts : ∃ first ∈ tokens, node.start = first.start ∧ node.line = first.line
  /-- The node ends with a token. -/
  stops : ∃ last ∈ tokens, node.stop = last.stop
  /-- The node has a byte. -/
  proper : node.start < node.stop
  /-- The children lie in the node, one behind the other. -/
  holds : node.HoldsChildren
  /-- Only blocks have children. -/
  childless : node.kind ≠ .block → node.children = []
  /-- The header of a block comes before its opening brace. -/
  headed : node.kind = .block → ∃ opening ∈ tokens, node.IsHeaded opening

theorem SpansTokens.mono {tokens others : List Token} {node : Node} (h : SpansTokens tokens node)
    (hsub : ∀ token ∈ tokens, token ∈ others) : SpansTokens others node where
  starts := h.starts.imp fun token htoken => ⟨hsub token htoken.1, htoken.2⟩
  stops := h.stops.imp fun token htoken => ⟨hsub token htoken.1, htoken.2⟩
  proper := h.proper
  holds := h.holds
  childless := h.childless
  headed := fun hkind => (h.headed hkind).imp fun token htoken => ⟨hsub token htoken.1, htoken.2⟩

/-- The node of a statement or header spans its tokens. -/
theorem row_spans {kind : NodeKind} {role : Option Role} {row : List Token} {node : Node}
    (hkind : kind ≠ .block) (hstart : StartsPlainly row) (hrow : Ordered row)
    (hnode : node ∈ Node.listed (nodeOver kind role row).toList) : SpansTokens row node := by
  cases row with
  | nil => simp [nodeOver] at hnode
  | cons first rest =>
    obtain ⟨core, last, breaks, hsplit, _, _, hstop⟩ :=
      stopOf_last (List.cons_ne_nil first rest) hstart
    have hlast : last ∈ first :: rest := by rw [hsplit]; simp
    obtain rfl : node = .mk kind role first.start last.stop first.line [] := by
      simpa [nodeOver, Node.children, hstop] using hnode
    have hproper := hrow.proper last hlast
    have hfirst := hrow.start_le hlast
    exact {
      starts := ⟨first, List.mem_cons_self .., rfl, rfl⟩
      stops := ⟨last, hlast, rfl⟩
      proper := show first.start < last.stop by omega
      holds := ⟨by simp [Node.children], List.Pairwise.nil⟩
      childless := fun _ => rfl
      headed := fun hblock => absurd hblock hkind }

/-- The items of an outline have no headers of their own. -/
theorem nodesOf_kind (items : List Item) : ∀ node ∈ nodesOf items, node.kind ≠ .blockHeader := by
  induction items with
  | nil => simp [nodesOf]
  | cons item items ih =>
    intro node hnode
    cases item with
    | leaf kind statement =>
      rw [nodesOf_leaf] at hnode
      rcases List.mem_append.mp hnode with hnode | hnode
      · rw [row_kind (Node.mem_listed hnode)]
        cases kind <;> simp [LeafKind.nodeKind]
      · exact ih node hnode
    | block header opening body closing =>
      obtain ⟨block, hnodes, hblock⟩ := nodesOf_block header opening body closing items
      rw [hnodes] at hnode
      rcases List.mem_append.mp hnode with hnode | hnode
      · rw [List.mem_singleton.mp hnode, hblock.kind]
        simp
      · exact ih node hnode

/-- The node of a block starts on the line of its first token. -/
theorem nodesOf_block_line {header : List Token} {opening closing : Token} {body items : List Item}
    {block : Node}
    (h : nodesOf (.block header opening body closing :: items) = [block] ++ nodesOf items) :
    block.line = (header.head?.getD opening).line := by
  rw [nodesOf, Item.node?, Option.toList_some, List.singleton_append, List.singleton_append,
    List.cons.injEq] at h
  rw [← h.1]
  rfl

/-- Where earlier nodes end before later ones start, all of them lie one behind the other. -/
theorem siblings_append {nodes others : List Node} (hnodes : nodes.Pairwise (·.stop ≤ ·.start))
    (hothers : others.Pairwise (·.stop ≤ ·.start))
    (hacross : ∀ node ∈ Node.listed nodes, ∀ other ∈ Node.listed others,
      node.stop ≤ other.start) :
    (nodes ++ others).Pairwise (·.stop ≤ ·.start) :=
  List.pairwise_append.mpr ⟨hnodes, hothers, fun node hnode other hother =>
    hacross node (Node.mem_listed hnode) other (Node.mem_listed hother)⟩

/-- There is one node of a statement or header at most. -/
theorem row_pairwise (kind : NodeKind) (role : Option Role) (row : List Token) :
    (nodeOver kind role row).toList.Pairwise (·.stop ≤ ·.start) := by
  cases row <;> simp [nodeOver]

namespace IsBlock

variable {block : Node} {header inner : List Token} {opening closing : Token} {body : List Item}

/-- The children of a block lie in it, one behind the other. -/
theorem holdsChildren (h : IsBlock block header opening body closing)
    (hstart : StartsPlainly header) (hbody : Within (nodesOf body) inner)
    (hordered : Ordered (header ++ opening :: (inner ++ [closing])))
    (hapart : (nodesOf body).Pairwise (·.stop ≤ ·.start)) : block.HoldsChildren := by
  have hheading := row_within .blockHeader (some .header) hstart hordered.left
  have hchildren : Within block.children (header ++ opening :: (inner ++ [closing])) := by
    rw [h.children]
    exact (hheading.mono fun token htoken => by simp [htoken]).append
      (hbody.mono fun token htoken => by simp [htoken])
  constructor
  · intro child hchild
    obtain ⟨⟨first, hfirst, hstarts⟩, last, hlast, hstops⟩ :=
      hchildren child (Node.mem_listed hchild)
    have hcoversFirst := Node.covers_iff.mp (h.covers hordered hfirst)
    have hcoversLast := Node.covers_iff.mp (h.covers hordered hlast)
    omega
  · rw [h.children]
    refine siblings_append (row_pairwise _ _ _) hapart fun node hnode other hother => ?_
    exact hheading.across (hbody.mono fun token htoken => by simp [htoken]) hordered hnode hother

/-- The header of a block comes before its opening brace, and what is inside comes behind. -/
theorem isHeaded (h : IsBlock block header opening body closing) (hstart : StartsPlainly header)
    (hopening : opening.kind = .opening .curly) (hbody : Within (nodesOf body) inner)
    (hordered : Ordered (header ++ opening :: (inner ++ [closing]))) :
    block.IsHeaded opening := by
  have hbrace : block.hasBrace opening = true :=
    hasBrace_of_apart (Or.inl hopening) (h.covers hordered (by simp))
      (h.opening_apart hstart hbody hordered) (hordered.proper opening (by simp))
  refine ⟨hopening, hbrace, nodeOver .blockHeader (some .header) header, nodesOf body, h.children,
    ?_, ?_⟩
  · intro node hnode
    have hlisted := Node.mem_listed (Option.mem_toList.mpr hnode)
    obtain ⟨_, last, hlast, hstops⟩ := row_within _ _ hstart hordered.left node hlisted
    have hbefore := hordered.across hlast (List.mem_cons_self ..)
    exact ⟨row_kind hlisted, by omega⟩
  · intro child hchild
    obtain ⟨⟨first, hfirst, hstarts⟩, _⟩ := hbody child (Node.mem_listed hchild)
    have hbehind := List.rel_of_pairwise_cons hordered.right.apart
      (show first ∈ inner ++ [closing] by simp [hfirst])
    exact ⟨nodesOf_kind body child hchild, by omega⟩

/-- The node of a block spans the tokens of the block. -/
theorem spans (h : IsBlock block header opening body closing)
    (hline : block.line = (header.head?.getD opening).line) (hstart : StartsPlainly header)
    (hopening : opening.kind = .opening .curly) (hbody : Within (nodesOf body) inner)
    (hordered : Ordered (header ++ opening :: (inner ++ [closing])))
    (hapart : (nodesOf body).Pairwise (·.stop ≤ ·.start)) :
    SpansTokens (header ++ opening :: (inner ++ [closing])) block where
  starts := by
    refine ⟨header.head?.getD opening, ?_, h.start, hline⟩
    cases header <;> simp
  stops := ⟨closing, by simp, h.stop⟩
  proper := by
    have hcovers := Node.covers_iff.mp (h.covers hordered (show closing ∈ _ by simp))
    have hproper := hordered.proper closing (by simp)
    omega
  holds := h.holdsChildren hstart hbody hordered hapart
  childless := fun hkind => absurd h.kind hkind
  headed := fun _ => ⟨opening, by simp, h.isHeaded hstart hopening hbody hordered⟩

end IsBlock

namespace Spells

/-- The items of an outline lie one behind the other. -/
theorem siblings_pairwise {items : List Item} {tokens : List Token} (h : Spells items tokens)
    (hordered : Ordered tokens) : (nodesOf items).Pairwise (·.stop ≤ ·.start) := by
  induction h with
  | nil => simp [nodesOf]
  | separator _ _ ih => exact ih hordered.tail
  | leaf _ hstart hrest ih =>
    rw [nodesOf_leaf]
    exact siblings_append (row_pairwise _ _ _) (ih hordered.right) fun node hnode other hother =>
      (row_within _ _ hstart hordered.left).across (hrest.within hordered.right) hordered hnode
        hother
  | @block body items header inner tokens opening closing hstart _ hbody _ hrest _ ihrest =>
    obtain ⟨block, hnodes, hblock⟩ := nodesOf_block header opening body closing items
    rw [block_regroup] at hordered
    have hwithin := hbody.within hordered.left.right.tail.left
    rw [hnodes]
    refine siblings_append (List.pairwise_singleton ..) (ihrest hordered.right) ?_
    intro node hnode other hother
    exact (hblock.within hstart hordered.left.left hwithin).across (hrest.within hordered.right)
      hordered hnode hother

/-- Every node of an outline spans tokens that spell the outline. -/
theorem spans {items : List Item} {tokens : List Token} (h : Spells items tokens)
    (hordered : Ordered tokens) :
    ∀ node ∈ Node.listed (nodesOf items), SpansTokens tokens node := by
  induction h with
  | nil => simp [nodesOf]
  | separator _ _ ih =>
    intro node hnode
    exact (ih hordered.tail node hnode).mono fun token htoken => List.mem_cons_of_mem _ htoken
  | @leaf items statement tokens _ hstart _ ih =>
    intro node hnode
    rw [nodesOf_leaf, Node.listed_append] at hnode
    rcases List.mem_append.mp hnode with hnode | hnode
    · have hkind : (Draft.leafKind statement).nodeKind ≠ .block := by
        cases Draft.leafKind statement <;> simp [LeafKind.nodeKind]
      exact (row_spans hkind hstart hordered.left hnode).mono fun token htoken => by simp [htoken]
    · exact (ih hordered.right node hnode).mono fun token htoken => by simp [htoken]
  | @block body items header inner tokens opening closing hstart hopening hbody _ _ ihbody
      ihrest =>
    intro node hnode
    obtain ⟨block, hnodes, hblock⟩ := nodesOf_block header opening body closing items
    rw [block_regroup] at hordered ⊢
    have hinner := hordered.left.right.tail.left
    rw [hnodes, Node.listed_append] at hnode
    rcases List.mem_append.mp hnode with hnode | hnode
    · refine SpansTokens.mono ?_ fun token htoken => List.mem_append_left _ htoken
      rcases List.mem_cons.mp (by simpa using hnode) with rfl | hnode
      · exact hblock.spans (nodesOf_block_line hnodes) hstart hopening (hbody.within hinner)
          hordered.left (hbody.siblings_pairwise hinner)
      rw [hblock.children, Node.listed_append] at hnode
      rcases List.mem_append.mp hnode with hnode | hnode
      · exact (row_spans (by simp) hstart hordered.left.left hnode).mono
          fun token htoken => by simp [htoken]
      · exact (ihbody hinner node hnode).mono fun token htoken => by simp [htoken]
    · exact (ihrest hordered.right node hnode).mono fun token htoken => by simp [htoken]

end Spells

/-- What stands before a token in a source, with the line of the token. -/
theorem token_starts {source : List Char} {dialect : Dialect} {found : List Token}
    (hfound : tokens dialect source = .ok found) {token : Token} (htoken : token ∈ found) :
    ∃ before, before <+: source ∧ token.start = Text.byteLength before ∧
      token.line = 1 + Text.newlines before ∧ before ++ token.text <+: source := by
  obtain ⟨cut, _, rfl, rfl⟩ := tokens_eq_ok_iff.mp hfound
  obtain ⟨earlier, later, hsplit⟩ := List.append_of_mem htoken
  obtain ⟨before, after, rfl, _, hstart, hline, _⟩ := tokensFrom_split hsplit
  refine ⟨textOf before, ⟨_, (textOf_append ..).symm⟩, by simpa using hstart, hline,
    textOf after, ?_⟩
  simp

/-- A node that starts and ends with tokens of a source is a part of the source. -/
theorem SpansTokens.liesIn {source : List Char} {dialect : Dialect} {found : List Token}
    {node : Node} (hfound : tokens dialect source = .ok found) (h : SpansTokens found node) :
    node.LiesIn source := by
  obtain ⟨first, hfirst, hstarts, hline⟩ := h.starts
  obtain ⟨last, hlast, hstops⟩ := h.stops
  obtain ⟨before, hbefore, hbeforeLength, hbeforeLine, _⟩ := token_starts hfound hfirst
  obtain ⟨start, _, hstart, _, hupto⟩ := token_starts hfound hlast
  have hstop : node.stop = Text.byteLength (start ++ last.text) := by
    rw [hstops, Token.stop, hstart, Text.byteLength_append]
  have hproper := h.proper
  -- both ends are ends of beginnings of the source, so the shorter one begins the longer one
  have hprefix : before <+: start ++ last.text := by
    rcases List.prefix_or_prefix_of_prefix hbefore hupto with hprefix | ⟨rest, hrest⟩
    · exact hprefix
    · have hlength := congrArg Text.byteLength hrest
      rw [Text.byteLength_append] at hlength
      omega
  obtain ⟨text, htext⟩ := hprefix
  obtain ⟨after, rfl⟩ := hupto
  rw [← htext] at hstop
  have hne : text ≠ [] := by
    rintro rfl
    rw [List.append_nil] at hstop
    omega
  refine ⟨hproper, ?_, before, text, after, by rw [htext], hne, by omega, hstop, by omega, ?_⟩
  · rw [← htext, Text.byteLength_append (before ++ text)]
    omega
  · rintro unit hsource
    have hslice := sliceBytes_middle before text after
    rw [SourceUnit.text, hsource, ← htext, hstop, Text.byteLength_append, hstarts, hbeforeLength]
    exact hslice

/-- The tree of a script is well formed. The root spans the whole source on line 1. Every other node
is a non-empty part of the source between two characters, on the line that the line breaks before it
lead to. Children lie in their parent, one behind the other. Below the root only blocks have
children; the header of a block, if there is one, is its first child, before the opening brace. -/
theorem tree_wellFormed {dialect : Dialect} {source : List Char} {root : Node}
    (htree : tree dialect source = .ok root) :
    ∃ found, tokens dialect source = .ok found ∧
      root.kind = .script ∧ root.start = 0 ∧ root.stop = Text.byteLength source ∧ root.line = 1 ∧
      root.HoldsChildren ∧
      ∀ node ∈ Node.listed root.children, node.LiesIn source ∧ node.HoldsChildren ∧
        (node.kind ≠ .block → node.children = []) ∧
        (node.kind = .block → ∃ opening ∈ found, node.IsHeaded opening) := by
  obtain ⟨found, items, hfound, hitems, rfl⟩ := tree_eq_ok_iff.mp htree
  have hordered := tokens_ordered hfound
  have hspells := outline_spells hitems
  have hspans := hspells.spans hordered
  refine ⟨found, hfound, rfl, rfl, rfl, rfl, ⟨?_, hspells.siblings_pairwise hordered⟩, ?_⟩
  · intro child hchild
    have hlies := (hspans child (Node.mem_listed hchild)).liesIn hfound
    exact ⟨Nat.zero_le _, hlies.inside⟩
  · intro node hnode
    have hnode := hspans node hnode
    exact ⟨hnode.liesIn hfound, hnode.holds, hnode.childless, hnode.headed⟩

/-- A block with its header on the line before, and with an escaped character of two bytes inside,
is well formed. -/
theorem escape_in_block_wellFormed :
    ∃ root, tree .kotlin "é\n\x7b \"\\é\" \x7d".toList = .ok root ∧
      (Node.listed root.children).map (fun node => (node.kind, node.start, node.stop, node.line)) =
        [(.block, 0, 12, 1), (.blockHeader, 0, 2, 1), (.statement, 5, 10, 2)] ∧
      ∀ node ∈ Node.listed root.children,
        node.LiesIn "é\n\x7b \"\\é\" \x7d".toList ∧ node.HoldsChildren := by
  have htokens : tokens .kotlin "é\n\x7b \"\\é\" \x7d".toList = .ok
      [⟨.word, ['é'], 0, 1⟩, ⟨.newline, ['\n'], 2, 1⟩, ⟨.opening .curly, ['\x7b'], 3, 2⟩,
        ⟨.string, ['"', '\\', 'é', '"'], 5, 2⟩, ⟨.closing .curly, ['\x7d'], 11, 2⟩] := by
    decide +kernel
  have htree := tree_eq_ok_iff.mpr ⟨_, _, htokens, rfl, rfl⟩
  obtain ⟨_, _, _, _, _, _, _, hnodes⟩ := tree_wellFormed htree
  exact ⟨_, htree, rfl, fun node hnode => ⟨(hnodes node hnode).1, (hnodes node hnode).2.1⟩⟩

end Script

end CorpusFacts
