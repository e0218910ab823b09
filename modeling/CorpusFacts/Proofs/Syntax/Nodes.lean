import CorpusFacts.Syntax.Node
import CorpusFacts.Syntax.Token
import Mathlib.Data.List.Basic

/-!
# The nodes of a tree

The preorder of a tree without its depths lists every node once. The leaves of the tree of a script
hold its text, and its blocks hold the leaves.
-/

namespace CorpusFacts

/-- Statements, directives and headers of blocks: the nodes of a script that hold its text. -/
def NodeKind.isLeaf : NodeKind → Bool
  | statement => true
  | importDirective => true
  | packageDirective => true
  | blockHeader => true
  | _ => false

namespace Node

/-- The nodes at and below some nodes, parents first. -/
def listed (nodes : List Node) : List Node :=
  (preorderAll 0 nodes).map (·.2)

mutual

/-- The depth to count from changes only the depths of a preorder. -/
theorem preorderFrom_nodes (depth other : Nat) : (node : Node) →
    (node.preorderFrom depth).map (·.2) = (node.preorderFrom other).map (·.2)
  | .mk _ _ _ _ _ children => by
    simp only [preorderFrom, List.map_cons]
    rw [preorderAll_nodes (depth + 1) (other + 1) children]

/-- The depth to count from changes only the depths of the preorders of siblings. -/
theorem preorderAll_nodes (depth other : Nat) : (nodes : List Node) →
    (preorderAll depth nodes).map (·.2) = (preorderAll other nodes).map (·.2)
  | [] => rfl
  | node :: nodes => by
    simp only [preorderAll, List.map_append]
    rw [preorderFrom_nodes depth other node, preorderAll_nodes depth other nodes]

end

@[simp] theorem listed_nil : listed [] = [] := rfl

/-- A node is listed before those below it, and these before its siblings. -/
@[simp] theorem listed_cons (node : Node) (nodes : List Node) :
    listed (node :: nodes) = node :: (listed node.children ++ listed nodes) := by
  obtain ⟨_, _, _, _, _, below⟩ := node
  simp only [listed, preorderAll, preorderFrom, List.map_append, List.map_cons, List.cons_append,
    children]
  rw [preorderAll_nodes (0 + 1) 0 below]

@[simp] theorem listed_append (first second : List Node) :
    listed (first ++ second) = listed first ++ listed second := by
  induction first with
  | nil => rfl
  | cons node first ih => simp [ih]

/-- Popping the nodes of a stack of trees lists them. -/
theorem unstack_eq_listed (stack : List Node) : unstack stack = listed stack := by
  induction stack using unstack.induct with
  | case1 => rw [unstack, listed_nil]
  | case2 kind role start stop line children stack ih =>
    rw [unstack, ih, listed_append, listed_cons]
    rfl

/-- A node is listed among itself and others. -/
theorem mem_listed {node : Node} {nodes : List Node} (h : node ∈ nodes) : node ∈ listed nodes := by
  obtain ⟨before, after, rfl⟩ := List.append_of_mem h
  simp

/-- The nodes directly below a listed node are listed, too. -/
theorem mem_listed_of_child {node child : Node} (hchild : child ∈ node.children) :
    (nodes : List Node) → node ∈ listed nodes → child ∈ listed nodes
  | [], h => by simp at h
  | .mk kind role start stop line below :: nodes, h => by
    rw [listed_cons] at h ⊢
    rcases List.mem_cons.mp h with rfl | h
    · exact List.mem_cons_of_mem _ (List.mem_append_left _ (mem_listed hchild))
    rcases List.mem_append.mp h with h | h
    · have := mem_listed_of_child hchild below h
      exact List.mem_cons_of_mem _ (List.mem_append_left _ this)
    · have := mem_listed_of_child hchild nodes h
      exact List.mem_cons_of_mem _ (List.mem_append_right _ this)

/-- The preorder of a tree lists its root and all nodes below. -/
theorem preorder_nodes (root : Node) :
    root.preorder.map (·.2) = root :: listed root.children := by
  have h := listed_cons root []
  simp only [listed, preorderAll, List.append_nil, List.map_nil] at h
  exact h

/-- The leaves of a tree, in order. -/
def leaves (root : Node) : List Node :=
  (root.preorder.map (·.2)).filter (·.kind.isLeaf)

/-- The blocks of a tree, in the order in which they start. -/
def blocks (root : Node) : List Node :=
  (root.preorder.map (·.2)).filter (·.kind == .block)

/-- Whether a token lies in the range of a node. -/
def covers (node : Node) (token : Token) : Bool :=
  node.start ≤ token.start && token.stop ≤ node.stop

/-- Whether a byte lies in the range of a node. -/
def holds (node : Node) (byte : Nat) : Bool :=
  node.start ≤ byte && byte < node.stop

/-- Whether a token lies outside of the range of a node, before or behind it. -/
def avoids (node : Node) (token : Token) : Bool :=
  token.stop ≤ node.start || node.stop ≤ token.start

/-- Whether a token is a brace of a block: it lies in the block and in none of its children. -/
def hasBrace (block : Node) (token : Token) : Bool :=
  (token.kind == .opening .curly || token.kind == .closing .curly) && block.covers token &&
    !block.children.any (·.covers token)

theorem covers_iff {node : Node} {token : Token} :
    node.covers token = true ↔ node.start ≤ token.start ∧ token.stop ≤ node.stop := by
  simp [covers]

theorem avoids_iff {node : Node} {token : Token} :
    node.avoids token = true ↔ token.stop ≤ node.start ∨ node.stop ≤ token.start := by
  simp [avoids]

/-- A token with a character that lies outside of a node does not lie in it. -/
theorem not_covers_of_avoids {node : Node} {token : Token} (htoken : token.start < token.stop)
    (h : node.avoids token = true) : node.covers token = false := by
  rw [avoids_iff] at h
  rw [← Bool.not_eq_true, covers_iff]
  omega

end Node

end CorpusFacts
