import CorpusFacts.Proofs.Analysis.TextSurvey
import CorpusFacts.Proofs.Script.Comments
import CorpusFacts.Proofs.Script.Coverage
import CorpusFacts.Proofs.Syntax.Pieces

/-!
# Trees without comments

The tree of a script without its comments has the same nodes one by one. Each of them starts and
ends at the same places as before, so it has the text of the pieces in it without their comments.
-/

namespace CorpusFacts.Script

/-- The text of a node without the comments in it. -/
def bareText (cut : List Piece) (node : Node) : List Char :=
  textOf (withoutComments (piecesIn node.start node.stop 0 cut))

/-- Two nodes are the same but for the comments: they have one kind and one role, and start and end
at the same places. -/
structure SameSpan (cut : List Piece) (node twin : Node) : Prop where
  /-- They are of one kind. -/
  kind : twin.kind = node.kind
  /-- They have one role. -/
  role : twin.role = node.role
  /-- They start at the same place. -/
  start : SamePlace cut node.start twin.start
  /-- They end at the same place. -/
  stop : SamePlace cut node.stop twin.stop

/-- Two nodes are the same but for the comments, and so are the nodes directly below. -/
structure SameNode (cut : List Piece) (node twin : Node) : Prop extends SameSpan cut node twin where
  /-- The nodes below are the same one by one. -/
  children : List.Forall₂ (SameSpan cut) node.children twin.children

variable {cut : List Piece}

/-- Nodes of one kind and role between the same places are the same, if those below are. -/
theorem sameNode_mk (kind : NodeKind) (role : Option Role) {start stop bareStart bareStop : Nat}
    (line bareLine : Nat) {children bareChildren : List Node}
    (hstart : SamePlace cut start bareStart) (hstop : SamePlace cut stop bareStop)
    (hchildren : List.Forall₂ (SameSpan cut) children bareChildren) :
    SameNode cut (.mk kind role start stop line children)
      (.mk kind role bareStart bareStop bareLine bareChildren) :=
  ⟨⟨rfl, rfl, hstart, hstop⟩, hchildren⟩

/-- A node has its text without the comments once the comments are gone. -/
theorem SameSpan.text (hproper : ∀ piece ∈ cut, piece.text ≠ []) {node twin : Node}
    (h : SameSpan cut node twin) :
    sliceBytes (textOf (withoutComments cut)) twin.start twin.stop = bareText cut node := by
  obtain ⟨first, behindFirst, hfirst, hstart, hbareStart⟩ := h.start
  obtain ⟨second, behindSecond, hsecond, hstop, hbareStop⟩ := h.stop
  rw [bareText, hstart, hstop, hbareStart, hbareStop]
  exact sliceBytes_filterMap Piece.bare? hproper ⟨behindFirst, hfirst.symm⟩
    ⟨behindSecond, hsecond.symm⟩

/-- A node has the text of the pieces in it. -/
theorem SameSpan.source_text (hproper : ∀ piece ∈ cut, piece.text ≠ []) {node twin : Node}
    (h : SameSpan cut node twin) :
    sliceBytes (textOf cut) node.start node.stop =
      textOf (piecesIn node.start node.stop 0 cut) := by
  obtain ⟨first, behindFirst, hfirst, hstart, _⟩ := h.start
  obtain ⟨second, behindSecond, hsecond, hstop, _⟩ := h.stop
  rw [hstart, hstop]
  have hslice := sliceBytes_filterMap some hproper ⟨behindFirst, hfirst.symm⟩
    ⟨behindSecond, hsecond.symm⟩
  simpa using hslice

/-- A row without its line breaks ends with its last token that is none. -/
theorem core_ends {body breaks : List Token} {last : Token} (hlast : last.kind ≠ .newline)
    (hbreaks : ∀ token ∈ breaks, token.kind = .newline) :
    core (body ++ last :: breaks) = core body ++ [last] := by
  have hnone : core breaks = [] := by simpa [core] using hbreaks
  have hcons : core (last :: breaks) = last :: core breaks := by simp [core, hlast]
  rw [core_append, hcons, hnone]

/-- The node of a row starts and ends at the same places as that of a row alike. -/
theorem nodeOver_bare (kind : NodeKind) (role : Option Role) {row other : List Token}
    (h : (barely cut).Rows row other) (hne : row ≠ []) :
    ∃ node twin, nodeOver kind role row = some node ∧ nodeOver kind role other = some twin ∧
      node.children = [] ∧ twin.children = [] ∧ SameSpan cut node twin := by
  have hother : other ≠ [] := fun hnil => hne (h.empty.mp hnil)
  obtain ⟨body, last, breaks, hsplit, hlast, hbreaks, hstop⟩ := stopOf_last hne h.starts
  obtain ⟨otherBody, otherLast, otherBreaks, hotherSplit, hotherLast, hotherBreaks, hotherStop⟩ :=
    stopOf_last hother h.otherStarts
  -- Line breaks aside, the rows correspond one by one, so their last tokens do.
  have hlike : (barely cut).like last otherLast := by
    have hcore := h.core
    rw [hsplit, hotherSplit, core_ends hlast hbreaks, core_ends hotherLast hotherBreaks,
      ← List.forall₂_reverse_iff, List.reverse_append, List.reverse_append] at hcore
    exact (List.forall₂_cons.mp hcore).1
  obtain ⟨first, rest, rfl⟩ := List.exists_cons_of_ne_nil hne
  obtain ⟨otherFirst, otherRest, rfl, hfirst⟩ := h.head
  refine ⟨_, _, rfl, rfl, rfl, rfl, rfl, rfl, hfirst.2.2.1, ?_⟩
  change SamePlace cut (stopOf (first :: rest)) (stopOf (otherFirst :: otherRest))
  rw [hstop, hotherStop]
  exact hlike.2.2.2

/-- The nodes of rows that are alike, if there are any, are the same, and so is the way through
them. -/
theorem rowNodes_bare (kind : NodeKind) (role : Option Role) {row other : List Token}
    (h : (barely cut).Rows row other) :
    List.Forall₂ (SameSpan cut) (nodeOver kind role row).toList (nodeOver kind role other).toList ∧
      List.Forall₂ (Visit.Alike (SameNode cut)) (Node.visitsOfAll (nodeOver kind role row).toList)
        (Node.visitsOfAll (nodeOver kind role other).toList) := by
  by_cases hne : row = []
  · rw [hne, h.empty.mpr hne]
    exact ⟨.nil, .nil⟩
  · obtain ⟨node, twin, hnode, htwin, hchildren, htwinChildren, hspan⟩ :=
      nodeOver_bare kind role h hne
    have hsame : SameNode cut node twin := ⟨hspan, by rw [hchildren, htwinChildren]; exact .nil⟩
    rw [hnode, htwin]
    refine ⟨.cons hspan .nil, ?_⟩
    simp only [Option.toList_some, Node.visitsOfAll, Node.visits_of_children_nil hchildren,
      Node.visits_of_children_nil htwinChildren]
    exact .cons (.enter hsame) (.cons (.leave hsame) .nil)

/-- Blocks that are alike start with tokens that correspond. -/
theorem firstToken_bare {header other : List Token} {opening otherOpening : Token}
    (hheader : (barely cut).Rows header other) (hopening : (barely cut).like opening otherOpening) :
    (barely cut).like (header.head?.getD opening) (other.head?.getD otherOpening) := by
  cases header with
  | nil =>
    rw [hheader.empty.mpr rfl]
    exact hopening
  | cons first rest =>
    obtain ⟨otherFirst, otherRest, rfl, hfirst⟩ := hheader.head
    exact hfirst

/-- The nodes of items that are alike are the same one by one, and so is the way through them. -/
theorem nodes_bare {items others : List Item} (h : (barely cut).Items items others) :
    List.Forall₂ (SameSpan cut) (nodesOf items) (nodesOf others) ∧
      List.Forall₂ (Visit.Alike (SameNode cut)) (Node.visitsOfAll (nodesOf items))
        (Node.visitsOfAll (nodesOf others)) := by
  induction h with
  | nil => exact ⟨.nil, .nil⟩
  | leaf kind hne hrow _ ih =>
    obtain ⟨hspans, hvisits⟩ := rowNodes_bare kind.nodeKind none hrow
    rw [nodesOf_leaf, nodesOf_leaf, Node.visitsOfAll_append, Node.visitsOfAll_append]
    exact ⟨List.rel_append hspans ih.1, List.rel_append hvisits ih.2⟩
  | block hheader hopening _ hclosing _ ihbody ihrest =>
    obtain ⟨hspans, hvisits⟩ := rowNodes_bare .blockHeader (some .header) hheader
    have hfirst := firstToken_bare hheader hopening
    simp only [nodesOf, Item.node?, Option.toList_some, List.singleton_append]
    have hsame (line bareLine : Nat) := sameNode_mk .block none line bareLine hfirst.2.2.1
      hclosing.2.2.2 (List.rel_append hspans ihbody.1)
    refine ⟨.cons (hsame _ _).toSameSpan ihrest.1, ?_⟩
    simp only [Node.visitsOfAll, Node.visits, Node.visitsOfAll_append]
    have hinside := List.rel_append hvisits ihbody.2
    exact List.rel_append (.cons (.enter (hsame _ _))
      (List.rel_append hinside (.cons (.leave (hsame _ _)) .nil))) ihrest.2

/-- The tree of a script has the same nodes one by one when the comments are gone. -/
theorem tree_bare {dialect : Dialect} {root : Node} (hreads : ReadsScript dialect cut)
    (htree : tree dialect (textOf cut) = .ok root) :
    ∃ bareRoot, tree dialect (textOf (withoutComments cut)) = .ok bareRoot ∧
      List.Forall₂ (Visit.Alike (SameNode cut)) root.visits bareRoot.visits := by
  obtain ⟨found, items, hfound, hitems, rfl⟩ := tree_eq_ok_iff.mp htree
  obtain rfl := Except.ok.inj (hfound.symm.trans (tokens_eq_ok_iff.mpr ⟨cut, hreads, rfl, rfl⟩))
  obtain ⟨bareItems, hbareItems, halike⟩ := hreads.outline_bare hitems
  obtain ⟨hspans, hvisits⟩ := nodes_bare halike
  have hbareTokens := tokens_eq_ok_iff.mpr ⟨withoutComments cut, hreads.bare, rfl, rfl⟩
  refine ⟨_, tree_eq_ok_iff.mpr ⟨_, bareItems, hbareTokens, hbareItems, rfl⟩, ?_⟩
  have hstart : SamePlace cut 0 0 := ⟨[], cut, rfl, rfl, rfl⟩
  have hstop : SamePlace cut (Text.byteLength (textOf cut))
      (Text.byteLength (textOf (withoutComments cut))) := ⟨cut, [], by simp, rfl, rfl⟩
  have hsame := sameNode_mk .script none 1 1 hstart hstop hspans
  exact .cons (.enter hsame) (List.rel_append hvisits (.cons (.leave hsame) .nil))

/-- Where no comment lies in a node, the node has its text without the comments. -/
theorem SameSpan.bareText_eq (hproper : ∀ piece ∈ cut, piece.text ≠ []) {node twin : Node}
    (h : SameSpan cut node twin)
    (hnone : ∀ piece ∈ piecesIn node.start node.stop 0 cut, piece.kind.isComment = false) :
    bareText cut node = sliceBytes (textOf cut) node.start node.stop := by
  rw [h.source_text hproper, bareText, withoutComments_of_none hnone]

end CorpusFacts.Script
