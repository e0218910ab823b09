import CorpusFacts.Proofs.Script.Coverage
import CorpusFacts.Proofs.Script.Likeness

/-!
# What a tree says apart from places

The skeleton of a tree lists its nodes with their depths and kinds, and for each leaf the tokens in
it, line breaks aside. It can be told from the outline of the script alone, so scripts with outlines
that are alike have the same skeleton.
-/

namespace CorpusFacts.Script

/-- Kinds and characters of the tokens of a row that are no line breaks. -/
def wordsOf (row : List Token) : List (TokenKind × List Char) :=
  (core row).map fun token => (token.kind, token.text)

/-- The depth and kind of a node, and the words in it if it is a leaf. -/
def entryOf (tokens : List Token) (place : Nat × Node) :
    Nat × NodeKind × List (TokenKind × List Char) :=
  (place.1, place.2.kind,
    if place.2.kind.isLeaf then wordsOf (tokens.filter place.2.covers) else [])

/-- All nodes of a tree, parents first, with their depths and kinds and the words in each leaf. -/
def skeleton (root : Node) (tokens : List Token) :
    List (Nat × NodeKind × List (TokenKind × List Char)) :=
  root.preorder.map (entryOf tokens)

/-- What the skeleton says of a statement or header; nothing where it has no tokens. -/
def rowEntry (depth : Nat) (kind : NodeKind) : (row : List Token) →
    List (Nat × NodeKind × List (TokenKind × List Char))
  | [] => []
  | first :: rest => [(depth, kind, wordsOf (first :: rest))]

mutual

/-- What the skeleton says of an item. -/
def Item.entries (depth : Nat) : Item → List (Nat × NodeKind × List (TokenKind × List Char))
  | .leaf kind tokens => rowEntry depth kind.nodeKind tokens
  | .block header _ body _ =>
    (depth, .block, []) :: (rowEntry (depth + 1) .blockHeader header ++ entriesOf (depth + 1) body)

/-- What the skeleton says of some items. -/
def entriesOf (depth : Nat) : List Item → List (Nat × NodeKind × List (TokenKind × List Char))
  | [] => []
  | item :: items => item.entries depth ++ entriesOf depth items

end

/-- Rows that are alike have the same words. -/
theorem Likeness.Rows.wordsOf_eq {likeness : Likeness} {row other : List Token}
    (h : likeness.Rows row other) : wordsOf other = wordsOf row := by
  have hwords : ∀ {tokens others : List Token}, List.Forall₂ likeness.like tokens others →
      others.map (fun token => (token.kind, token.text)) =
        tokens.map fun token => (token.kind, token.text) := by
    intro tokens others hlike
    induction hlike with
    | nil => rfl
    | cons hlike _ ih =>
      rw [List.map_cons, List.map_cons, ih, likeness.kind_eq _ _ hlike, likeness.text_eq _ _ hlike]
  exact hwords h.core

/-- Rows that are alike have the same entry. -/
theorem Likeness.Rows.rowEntry_eq {likeness : Likeness} {row other : List Token}
    (h : likeness.Rows row other) (depth : Nat) (kind : NodeKind) :
    rowEntry depth kind other = rowEntry depth kind row := by
  have hwords := h.wordsOf_eq
  have hempty := h.empty
  cases row <;> cases other <;> simp_all [rowEntry]

/-- Outlines that are alike have the same entries. -/
theorem Likeness.Items.entriesOf_eq {likeness : Likeness} {items others : List Item}
    (h : likeness.Items items others) (depth : Nat) :
    entriesOf depth others = entriesOf depth items := by
  induction h generalizing depth with
  | nil => rfl
  | leaf kind _ hrow _ ih => simp only [entriesOf, Item.entries, hrow.rowEntry_eq, ih]
  | block hheader _ _ _ _ ihbody ihrest =>
    simp only [entriesOf, Item.entries, hheader.rowEntry_eq, ihbody, ihrest]

/-- The preorders of siblings come one behind the other. -/
theorem preorderAll_append (depth : Nat) (first second : List Node) :
    Node.preorderAll depth (first ++ second) =
      Node.preorderAll depth first ++ Node.preorderAll depth second := by
  induction first with
  | nil => rfl
  | cons node first ih => simp only [List.cons_append, Node.preorderAll, ih, List.append_assoc]

/-- The words in the node of a statement or header are those of its row, whatever stands around. -/
theorem row_entry {kind : NodeKind} {role : Option Role} {before row after : List Token}
    (hleaf : kind.isLeaf = true) (hstart : StartsPlainly row)
    (hordered : Ordered (before ++ (row ++ after))) (depth : Nat) :
    (Node.preorderAll depth (nodeOver kind role row).toList).map
      (entryOf (before ++ (row ++ after))) = rowEntry depth kind row := by
  cases row with
  | nil => simp [nodeOver, Node.preorderAll, rowEntry]
  | cons first rest =>
    have hrow := hordered.right.left
    obtain ⟨node, hnode, hkind, hchildren, _, _, hcovers⟩ :=
      nodeOver_range kind role (List.cons_ne_nil first rest) hstart hrow
    have hwithin := row_within kind role hstart hrow
    rw [hnode, Option.toList_some] at hwithin ⊢
    have hnone : ∀ {tokens : List Token}, (∀ token ∈ tokens, Apart [node] token) →
        (∀ token ∈ tokens, token.start < token.stop) → tokens.filter node.covers = [] := by
      intro tokens hapart hproper
      rw [List.filter_eq_nil_iff]
      intro token htoken
      simp [Node.not_covers_of_avoids (hproper token htoken) (hapart token htoken node (by simp))]
    have hbefore : before.filter node.covers = [] :=
      hnone (fun token htoken => hwithin.apart_before fun other hother =>
        hordered.across htoken (List.mem_append_left _ hother)) hordered.left.proper
    have hafter : after.filter node.covers = [] :=
      hnone (fun token htoken => hwithin.apart_after fun other hother =>
        hordered.right.across hother htoken) hordered.right.right.proper
    have hwords : core ((first :: rest).filter node.covers) = core (first :: rest) := by
      unfold core
      rw [List.filter_filter]
      refine List.filter_congr fun token htoken => ?_
      rcases hcovers token htoken with hcovered | ⟨hnewline, _⟩
      · simp [hcovered]
      · simp [hnewline]
    have hpreorder : Node.preorderAll depth [node] = [(depth, node)] := by
      obtain ⟨_, _, _, _, _, children⟩ := node
      obtain rfl : children = [] := hchildren
      simp [Node.preorderAll, Node.preorderFrom]
    rw [hpreorder, List.map_singleton, entryOf, hkind, if_pos hleaf, wordsOf, List.filter_append,
      List.filter_append, hbefore, hafter, List.nil_append, List.append_nil, hwords]
    rfl

/-- The entries of the nodes of an outline are those of its items, whatever stands around the tokens
that spell it. -/
theorem Spells.entries {items : List Item} {tokens : List Token} (h : Spells items tokens)
    {before after : List Token} (hordered : Ordered (before ++ (tokens ++ after))) (depth : Nat) :
    (Node.preorderAll depth (nodesOf items)).map (entryOf (before ++ (tokens ++ after))) =
      entriesOf depth items := by
  induction h generalizing before after depth with
  | nil => rfl
  | @separator items token tokens _ _ ih =>
    have hregroup : before ++ (token :: tokens ++ after) =
        (before ++ [token]) ++ (tokens ++ after) := by simp
    rw [hregroup] at hordered ⊢
    exact ih hordered depth
  | @leaf items statement tokens hne hstart _ ih =>
    have hregroup : before ++ (statement ++ tokens ++ after) =
        (before ++ statement) ++ (tokens ++ after) := by simp
    have hkind : (Draft.leafKind statement).nodeKind.isLeaf = true := by
      cases Draft.leafKind statement <;> rfl
    rw [nodesOf_leaf, preorderAll_append, List.map_append, entriesOf, Item.entries]
    congr 1
    · rw [List.append_assoc] at hordered ⊢
      exact row_entry hkind hstart hordered depth
    · rw [hregroup] at hordered ⊢
      exact ih hordered depth
  | @block body items header inner tokens opening closing hstart hopening hbody hclosing hrest
      ihbody ihrest =>
    obtain ⟨block, hnodes, hblock⟩ := nodesOf_block header opening body closing items
    have hpreorder : Node.preorderAll depth [block] =
        (depth, block) :: Node.preorderAll (depth + 1) block.children := by
      obtain ⟨_, _, _, _, _, children⟩ := block
      simp [Node.preorderAll, Node.preorderFrom, Node.children]
    rw [hnodes, preorderAll_append, hpreorder, hblock.children, preorderAll_append, entriesOf,
      Item.entries]
    simp only [List.map_append, List.map_cons, List.cons_append, entryOf, hblock.kind,
      NodeKind.isLeaf, Bool.false_eq_true, if_false, List.cons.injEq, true_and]
    have hheader : before ++ (header ++ opening :: (inner ++ closing :: tokens) ++ after) =
        before ++ (header ++ (opening :: (inner ++ closing :: tokens) ++ after)) := by simp
    have hinner : before ++ (header ++ opening :: (inner ++ closing :: tokens) ++ after) =
        (before ++ header ++ [opening]) ++ (inner ++ (closing :: tokens ++ after)) := by simp
    have htail : before ++ (header ++ opening :: (inner ++ closing :: tokens) ++ after) =
        (before ++ header ++ opening :: inner ++ [closing]) ++ (tokens ++ after) := by simp
    congr 1
    · congr 1
      · rw [hheader] at hordered ⊢
        exact row_entry rfl hstart hordered (depth + 1)
      · rw [hinner] at hordered ⊢
        exact ihbody hordered (depth + 1)
    · rw [htail] at hordered ⊢
      exact ihrest hordered depth

/-- The skeleton of a script is told from its outline. -/
theorem skeleton_eq {tokens : List Token} {items : List Item} (hordered : Ordered tokens)
    (hitems : outline tokens = .ok items) (stop : Nat) :
    skeleton (.mk .script none 0 stop 1 (nodesOf items)) tokens =
      (0, .script, []) :: entriesOf 1 items := by
  have hall : Ordered ([] ++ (tokens ++ [])) := by simpa using hordered
  have hentries := (outline_spells hitems).entries hall 1
  rw [List.nil_append, List.append_nil] at hentries
  rw [skeleton, Node.preorder, Node.preorderFrom, List.map_cons, hentries]
  rfl

end CorpusFacts.Script
