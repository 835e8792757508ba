import DiceLang.Tree
import Mathlib.Data.List.Basic

/-!
# The nodes of a tree

`Tree.nodes` lists a tree together with all that is below it, so "occurs in a tree" is membership in
that list.  What is asked of every node can be asked one level at a time: `Tree.mem_nodes` says which
nodes a tree has in terms of its children, and `Tree.children_induction` is the induction that goes
with it.
-/

namespace DiceLang

namespace Tree

mutual

/-- The nodes of a tree, from the root down and from left to right. -/
def nodes : Tree → List Tree
  | hole span => [hole span]
  | integer value span => [integer value span]
  | arithmetic op lhs rhs span => arithmetic op lhs rhs span :: (lhs.nodes ++ rhs.nodes)
  | comparison op lhs rhs span => comparison op lhs rhs span :: (lhs.nodes ++ rhs.nodes)
  | nullary name span => [nullary name span]
  | prefixed name rhs span => prefixed name rhs span :: rhs.nodes
  | infixed name lhs rhs span => infixed name lhs rhs span :: (lhs.nodes ++ rhs.nodes)
  | postfixed name lhs span => postfixed name lhs span :: lhs.nodes
  | call name args span => call name args span :: allNodes args
  | definition form parameters body span => definition form parameters body span :: body.nodes
  | program definitions span => program definitions span :: allNodes definitions

/-- The nodes of several trees. -/
def allNodes : List Tree → List Tree
  | [] => []
  | tree :: trees => tree.nodes ++ allNodes trees

end

/-- The nodes of several trees are those of one after the other. -/
theorem allNodes_eq_flatMap (trees : List Tree) : allNodes trees = trees.flatMap nodes := by
  induction trees with
  | nil => rfl
  | cons tree trees ih => simp [allNodes, ih]

/-- The nodes of a tree are its root and the nodes of its children. -/
theorem nodes_eq (tree : Tree) : tree.nodes = tree :: tree.children.flatMap nodes := by
  cases tree <;> simp [nodes, children, allNodes_eq_flatMap]

/-- A node of a tree is the tree itself or a node of one of its children. -/
theorem mem_nodes {node tree : Tree} :
    node ∈ tree.nodes ↔ node = tree ∨ ∃ child ∈ tree.children, node ∈ child.nodes := by
  rw [nodes_eq, List.mem_cons, List.mem_flatMap]

/-- What holds of all nodes holds of the root and of all nodes of the children. -/
theorem forall_mem_nodes {P : Tree → Prop} {tree : Tree} :
    (∀ node ∈ tree.nodes, P node) ↔
      P tree ∧ ∀ child ∈ tree.children, ∀ node ∈ child.nodes, P node := by
  simp only [nodes_eq tree, List.forall_mem_cons, List.mem_flatMap]
  constructor
  · rintro ⟨hroot, hothers⟩
    exact ⟨hroot, fun child hchild node hnode => hothers node ⟨child, hchild, hnode⟩⟩
  · rintro ⟨hroot, hothers⟩
    exact ⟨hroot, fun node ⟨child, hchild, hnode⟩ => hothers child hchild node hnode⟩

theorem mem_nodes_self (tree : Tree) : tree ∈ tree.nodes := mem_nodes.mpr (.inl rfl)

theorem depth_le_maxDepth {tree : Tree} {trees : List Tree} (h : tree ∈ trees) :
    tree.depth ≤ maxDepth trees := by
  induction trees with
  | nil => cases h
  | cons first trees ih =>
      rw [maxDepth]
      rcases List.mem_cons.mp h with rfl | h
      · omega
      · have := ih h
        omega

/-- A child is less deep than its parent. -/
theorem depth_lt_of_mem_children {tree child : Tree} (h : child ∈ tree.children) :
    child.depth < tree.depth := by
  cases tree with
  | hole | integer | nullary => cases h
  | arithmetic op lhs rhs span | comparison op lhs rhs span | infixed name lhs rhs span =>
      rw [depth]
      rcases List.mem_pair.mp h with rfl | rfl <;> omega
  | prefixed name tree span | postfixed name tree span | definition form parameters tree span =>
      obtain rfl := List.mem_singleton.mp h
      exact Nat.lt_succ_self _
  | call name trees span | program trees span =>
      exact Nat.lt_succ_of_le (depth_le_maxDepth h)

/-- What holds of a tree whenever it holds of its children holds of all trees. -/
theorem children_induction {P : Tree → Prop}
    (h : ∀ tree, (∀ child ∈ tree.children, P child) → P tree) (tree : Tree) : P tree :=
  h tree fun child _ => children_induction h child
termination_by tree.depth
decreasing_by exact depth_lt_of_mem_children ‹_›

/-- A node of a node is a node. -/
theorem mem_nodes_trans {inner node tree : Tree} (hinner : inner ∈ node.nodes)
    (hnode : node ∈ tree.nodes) : inner ∈ tree.nodes := by
  induction tree using children_induction with
  | h tree ih =>
      rcases mem_nodes.mp hnode with rfl | ⟨child, hchild, hbelow⟩
      · exact hinner
      · exact mem_nodes.mpr (.inr ⟨child, hchild, ih child hchild hbelow⟩)

theorem mem_nodes_of_mem_children {child tree : Tree} (h : child ∈ tree.children) :
    child ∈ tree.nodes :=
  mem_nodes.mpr (.inr ⟨child, h, mem_nodes_self child⟩)

/-- Without spans a tree has the same children, without theirs. -/
theorem children_erase (tree : Tree) : tree.erase.children = tree.children.map erase := by
  cases tree <;> simp [erase, children, eraseAll_eq_map]

/-- A node of a tree is, without spans, a node of the tree without spans. -/
theorem erase_mem_nodes {node tree : Tree} (h : node ∈ tree.nodes) :
    node.erase ∈ tree.erase.nodes := by
  induction tree using children_induction with
  | h tree ih =>
      rcases mem_nodes.mp h with rfl | ⟨child, hchild, hbelow⟩
      · exact mem_nodes_self _
      · refine mem_nodes.mpr (.inr ⟨child.erase, ?_, ih child hchild hbelow⟩)
        rw [children_erase]
        exact List.mem_map_of_mem hchild

end Tree

end DiceLang
