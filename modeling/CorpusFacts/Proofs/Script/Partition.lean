import CorpusFacts.Proofs.Script.Coverage

/-!
# The tree of a script loses nothing

The tokens of a script fall into three parts: those in the leaves of its tree, the braces of its
blocks, and separators between them. So does every byte of the source that is neither white space
nor part of a comment or of the line of an interpreter.
-/

namespace CorpusFacts

/-- Whether a piece is more than white space, a comment or the line of an interpreter. -/
def PieceKind.isCode : PieceKind → Bool
  | .token .newline => false
  | .token _ => true
  | _ => false

namespace Script

/-- A token has one place in a tree: in a single leaf and outside of the others; or as a brace of a
single block, outside of all leaves; or, as a separator, outside of all leaves. -/
def InOnePlace (root : Node) (token : Token) : Prop :=
  (root.leaves.countP (·.covers token) = 1 ∧ root.blocks.countP (·.hasBrace token) = 0 ∧
    ∀ leaf ∈ root.leaves, leaf.covers token = true ∨ leaf.avoids token = true) ∨
  (root.blocks.countP (·.hasBrace token) = 1 ∧ ∀ leaf ∈ root.leaves, leaf.avoids token = true) ∨
  (token.kind.isSeparator = true ∧ root.blocks.countP (·.hasBrace token) = 0 ∧
    ∀ leaf ∈ root.leaves, leaf.avoids token = true)

/-- The place of a token among the children of a script is its place in the tree. -/
theorem Placed.inOnePlace {root : Node} {token : Token} (hkind : root.kind = .script)
    (h : Placed root.children token) : InOnePlace root token := by
  have hleaves : root.leaves = (Node.listed root.children).filter (·.kind.isLeaf) := by
    rw [Node.leaves, Node.preorder_nodes,
      List.filter_cons_of_neg (by simp [hkind, NodeKind.isLeaf])]
  have hblocks : root.blocks = (Node.listed root.children).filter (·.kind == .block) := by
    rw [Node.blocks, Node.preorder_nodes, List.filter_cons_of_neg (by simp [hkind])]
  have hmem : ∀ leaf ∈ root.leaves, leaf ∈ Node.listed root.children ∧ leaf.kind.isLeaf = true := by
    intro leaf hleaf
    rw [hleaves] at hleaf
    exact List.mem_filter.mp hleaf
  have hleafCount : root.leaves.countP (·.covers token) = leafCount root.children token := by
    rw [hleaves, List.countP_filter, leafCount]
  have hbraceCount : root.blocks.countP (·.hasBrace token) = braceCount root.children token := by
    rw [hblocks, List.countP_filter, braceCount]
  unfold InOnePlace
  rw [hleafCount, hbraceCount]
  cases h with
  | leaf hone hnone hcovered _ =>
    exact Or.inl ⟨hone, hnone, fun leaf hleaf =>
      hcovered leaf (hmem leaf hleaf).1 (hmem leaf hleaf).2⟩
  | brace hone hothers _ =>
    exact Or.inr (Or.inl ⟨hone, fun leaf hleaf =>
      hothers leaf (hmem leaf hleaf).1 (hmem leaf hleaf).2⟩)
  | between hseparator hnone hothers =>
    exact Or.inr (Or.inr ⟨hseparator, hnone, fun leaf hleaf =>
      hothers leaf (hmem leaf hleaf).1 (hmem leaf hleaf).2⟩)

/-- Where a token lies in a node or outside of it, so does each of its bytes. -/
theorem holds_iff_covers {node : Node} {token : Token} {byte : Nat} (hstart : token.start ≤ byte)
    (hstop : byte < token.stop) (h : node.covers token = true ∨ node.avoids token = true) :
    node.holds byte = true ↔ node.covers token = true := by
  rw [Node.covers_iff, Node.avoids_iff] at h
  rw [Node.covers_iff]
  simp only [Node.holds, Bool.and_eq_true, decide_eq_true_eq]
  omega

/-- A byte of a token has the place of the token: in a single leaf; or outside of all leaves, in a
separator or in a brace of a block. -/
theorem InOnePlace.byte {root : Node} {token : Token} {byte : Nat} (h : InOnePlace root token)
    (hstart : token.start ≤ byte) (hstop : byte < token.stop) :
    root.leaves.countP (·.holds byte) = 1 ∨
      root.leaves.countP (·.holds byte) = 0 ∧
        (token.kind.isSeparator = true ∨ ∃ block ∈ root.blocks, block.hasBrace token = true) := by
  have hnone (hothers : ∀ leaf ∈ root.leaves, leaf.avoids token = true) :
      root.leaves.countP (·.holds byte) = 0 := by
    rw [List.countP_eq_zero]
    intro leaf hleaf
    rw [holds_iff_covers hstart hstop (Or.inr (hothers leaf hleaf)),
      Node.not_covers_of_avoids (by omega) (hothers leaf hleaf)]
    exact Bool.false_ne_true
  rcases h with ⟨hone, _, hcovered⟩ | ⟨hone, hothers⟩ | ⟨hseparator, _, hothers⟩
  · left
    rw [← hone]
    exact List.countP_congr fun leaf hleaf => holds_iff_covers hstart hstop (hcovered leaf hleaf)
  · refine Or.inr ⟨hnone hothers, Or.inr ?_⟩
    exact List.countP_pos_iff.mp (by omega)
  · exact Or.inr ⟨hnone hothers, Or.inl hseparator⟩

/-- The tree of a script partitions its tokens, in the order of the source: each has one place, the
leaves lie one behind the other, and a block has one opening and one closing brace. So a byte of
code lies in a single leaf, or outside of all leaves in a semicolon or in the brace of a block. -/
theorem tree_partitions_tokens {dialect : Dialect} {source : List Char} {root : Node}
    (htree : tree dialect source = .ok root) :
    ∃ cut found, pieces dialect source = .ok cut ∧ tokens dialect source = .ok found ∧
      (∀ token ∈ found, InOnePlace root token) ∧
      root.leaves.Pairwise (·.stop ≤ ·.start) ∧
      (∀ block ∈ root.blocks, ∃ opening closing,
        found.filter block.hasBrace = [opening, closing] ∧
        opening.kind = .opening .curly ∧ closing.kind = .closing .curly) ∧
      ∀ before piece after, cut = before ++ piece :: after → piece.kind.isCode = true →
        ∀ byte, Text.byteLength (textOf before) ≤ byte →
          byte < Text.byteLength (textOf before) + Text.byteLength piece.text →
          root.leaves.countP (·.holds byte) = 1 ∨
            root.leaves.countP (·.holds byte) = 0 ∧
              (piece.kind = .token .semicolon ∨ ∃ block ∈ root.blocks, ∃ token ∈ found,
                block.hasBrace token = true ∧ token.start ≤ byte ∧ byte < token.stop) := by
  obtain ⟨found, items, hfound, hitems, rfl⟩ := tree_eq_ok_iff.mp htree
  obtain ⟨cut, hreads, htext, hcut⟩ := tokens_eq_ok_iff.mp hfound
  have hordered := tokens_ordered hfound
  have hspells := outline_spells hitems
  have hplaces : ∀ token ∈ found, InOnePlace
      (.mk .script none 0 (Text.byteLength source) 1 (nodesOf items)) token :=
    fun token htoken => Placed.inOnePlace rfl (hspells.placed hordered token htoken)
  refine ⟨cut, found, pieces_eq_ok_iff.mpr ⟨hreads, htext⟩, hfound, hplaces, ?_, ?_, ?_⟩
  · rw [Node.leaves, Node.preorder_nodes]
    exact hspells.leaves_pairwise hordered
  · intro block hblock
    rw [Node.blocks, Node.preorder_nodes] at hblock
    obtain ⟨hmem, hkind⟩ := List.mem_filter.mp hblock
    rcases List.mem_cons.mp hmem with rfl | hmem
    · cases hkind
    · exact hspells.braces hordered hmem (by simpa using hkind)
  · rintro before ⟨kind, text⟩ after rfl hcode byte hstart hstop
    cases kind with
    | token kind =>
      have htoken := mem_tokensFrom 0 1 before after kind text
      rw [hcut, Nat.zero_add] at htoken
      rcases (hplaces _ htoken).byte hstart hstop with hone | ⟨hnone, hseparator | hbrace⟩
      · exact Or.inl hone
      · refine Or.inr ⟨hnone, Or.inl ?_⟩
        rcases TokenKind.isSeparator_eq_true_iff.mp hseparator with hkind | hkind
        · simp only at hkind
          simp [hkind, PieceKind.isCode] at hcode
        · simp only at hkind
          rw [hkind]
      · obtain ⟨block, hblock, hbrace⟩ := hbrace
        exact Or.inr ⟨hnone, Or.inr ⟨block, hblock, _, htoken, hbrace, hstart, hstop⟩⟩
    | _ => simp [PieceKind.isCode] at hcode

/-- The tokens of a block with a comment, a semicolon and a line break inside have one place each.
-/
theorem tokens_in_block_partitioned :
    ∃ root found, tree .kotlin "a \x7b b; c // d\n\x7d".toList = .ok root ∧
      tokens .kotlin "a \x7b b; c // d\n\x7d".toList = .ok found ∧ found.length = 7 ∧
      root.leaves.length = 3 ∧ ∀ token ∈ found, InOnePlace root token := by
  have htokens : tokens .kotlin "a \x7b b; c // d\n\x7d".toList = .ok
      [⟨.word, ['a'], 0, 1⟩, ⟨.opening .curly, ['\x7b'], 2, 1⟩, ⟨.word, ['b'], 4, 1⟩,
        ⟨.semicolon, [';'], 5, 1⟩, ⟨.word, ['c'], 7, 1⟩, ⟨.newline, ['\n'], 13, 1⟩,
        ⟨.closing .curly, ['\x7d'], 14, 2⟩] := by decide +kernel
  have htree := tree_eq_ok_iff.mpr ⟨_, _, htokens, rfl, rfl⟩
  obtain ⟨_, found, _, hfound, hplaces, _⟩ := tree_partitions_tokens htree
  cases htokens.symm.trans hfound
  exact ⟨_, _, htree, htokens, rfl, rfl, hplaces⟩

end Script

end CorpusFacts
