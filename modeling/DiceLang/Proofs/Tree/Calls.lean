import DiceLang.Proofs.Evaluation.Simulation
import DiceLang.Proofs.Tree.Node

/-!
# The calls in a tree

`Tree.calls` lists the forms that the nodes of a tree call.  They are all that the evaluation of a tree
asks an environment for, as long as it stays in that tree.

`Tree.fill` writes arguments into a tree: every call of a parameter, with or without parentheses,
gives way to the argument.  Any other node stays and is filled below (`Tree.parallel_fill`), so a tree
that calls no parameter is left as it is (`Tree.fill_eq_self`).
-/

namespace DiceLang

namespace Tree

/-- The forms that the nodes of a tree call. -/
def calls (tree : Tree) : List Form := tree.nodes.filterMap form?

/-- A tree calls a form if one of its nodes has it. -/
theorem mem_calls {tree : Tree} {form : Form} :
    form ∈ tree.calls ↔ ∃ node ∈ tree.nodes, node.form? = some form := List.mem_filterMap

/-- What the root calls is called. -/
theorem mem_calls_of_form? {tree : Tree} {form : Form} (h : tree.form? = some form) :
    form ∈ tree.calls :=
  mem_calls.mpr ⟨tree, mem_nodes_self tree, h⟩

/-- What is called below is called. -/
theorem calls_subset_of_mem_children {tree child : Tree} (h : child ∈ tree.children) :
    child.calls ⊆ tree.calls := by
  intro form hform
  obtain ⟨node, hnode, hcalls⟩ := mem_calls.mp hform
  exact mem_calls.mpr ⟨node, mem_nodes_trans hnode (mem_nodes_of_mem_children h), hcalls⟩

mutual

/-- A tree in which every call of a parameter has given way to its argument.  A parameter is called by
its name alone or with empty parentheses. -/
def fill (arguments : List (String × Tree)) : Tree → Tree
  | hole span => hole span
  | integer value span => integer value span
  | arithmetic op lhs rhs span =>
    arithmetic op (lhs.fill arguments) (rhs.fill arguments) span
  | comparison op lhs rhs span =>
    comparison op (lhs.fill arguments) (rhs.fill arguments) span
  | nullary name span => (arguments.lookup name).getD (nullary name span)
  | prefixed name rhs span => prefixed name (rhs.fill arguments) span
  | infixed name lhs rhs span => infixed name (lhs.fill arguments) (rhs.fill arguments) span
  | postfixed name lhs span => postfixed name (lhs.fill arguments) span
  | call name [] span => (arguments.lookup name).getD (call name [] span)
  | call name (arg :: args) span =>
    call name (arg.fill arguments :: fillAll arguments args) span
  | definition form parameters body span =>
    definition form parameters (body.fill arguments) span
  | program definitions span => program (fillAll arguments definitions) span

/-- Trees in which every call of a parameter has given way to its argument. -/
def fillAll (arguments : List (String × Tree)) : List Tree → List Tree
  | [] => []
  | tree :: trees => tree.fill arguments :: fillAll arguments trees

end

section Fill

variable {arguments : List (String × Tree)} {tree : Tree}

/-- Several trees are filled in one by one. -/
theorem fillAll_eq_map (arguments : List (String × Tree)) (trees : List Tree) :
    fillAll arguments trees = trees.map (fill arguments) := by
  induction trees with
  | nil => rfl
  | cons tree trees ih => simp [fillAll, ih]

/-- A call of a parameter gives way to the argument. -/
theorem fill_of_lookup {name : String} {argument : Tree}
    (hform : tree.form? = some ⟨name, .nullary⟩) (hargument : arguments.lookup name = some argument) :
    tree.fill arguments = argument := by
  cases tree with
  | nullary other span =>
      cases hform
      rw [fill, hargument, Option.getD_some]
  | call other args span =>
      obtain ⟨shape, hshape, hsame⟩ := Option.map_eq_some_iff.mp hform
      cases hsame
      cases args with
      | nil => rw [fill, hargument, Option.getD_some]
      | cons first others =>
          unfold Shape.ofArgumentCount? at hshape
          split at hshape
          · next hcount => cases hcount
          · cases hshape
          · cases hshape
  | prefixed | infixed | postfixed => cases hform
  | hole | integer | arithmetic | comparison | definition | program => cases hform

/-- A node that calls no parameter stays, and is filled below. -/
theorem parallel_fill {Match : Tree → Tree → Prop}
    (hform : ∀ name, tree.form? = some ⟨name, .nullary⟩ → arguments.lookup name = none)
    (h : ∀ child ∈ tree.children, Match child (child.fill arguments)) :
    Parallel Match tree (tree.fill arguments) := by
  have hall : List.Forall₂ Match tree.children (tree.children.map (fill arguments)) :=
    List.forall₂_map_right_iff.mpr (List.forall₂_same.mpr h)
  cases tree with
  | hole | integer =>
      rw [fill]
      constructor
  | arithmetic op lhs rhs span | comparison op lhs rhs span | infixed name lhs rhs span =>
      have hlhs : Match lhs (lhs.fill arguments) := h lhs (by simp [children])
      have hrhs : Match rhs (rhs.fill arguments) := h rhs (by simp [children])
      rw [fill]
      constructor <;> assumption
  | prefixed name child span | postfixed name child span | definition form parameters child span =>
      have hchild : Match child (child.fill arguments) := h child (by simp [children])
      rw [fill]
      constructor
      exact hchild
  | nullary name span =>
      rw [fill, hform name rfl]
      exact .nullary name span span
  | call name args span =>
      cases args with
      | nil =>
          rw [fill, hform name rfl]
          exact .call name span span .nil
      | cons first others =>
          rw [fill, fillAll_eq_map]
          exact .call name span span hall
  | program definitions span =>
      rw [fill, fillAll_eq_map]
      exact .program span span hall

/-- A tree that calls no parameter is left as it is. -/
theorem fill_eq_self (h : ∀ name, ⟨name, .nullary⟩ ∈ tree.calls → arguments.lookup name = none) :
    tree.fill arguments = tree := by
  induction tree using children_induction with
  | h tree ih =>
      have hchildren : ∀ child ∈ tree.children, child.fill arguments = child :=
        fun child hchild => ih child hchild fun name hname =>
          h name (calls_subset_of_mem_children hchild hname)
      have hall : tree.children.map (fill arguments) = tree.children :=
        (List.map_congr_left hchildren).trans (List.map_id _)
      have hroot : ∀ name, tree.form? = some ⟨name, .nullary⟩ → arguments.lookup name = none :=
        fun name hname => h name (mem_calls_of_form? hname)
      cases tree with
      | hole | integer => rw [fill]
      | arithmetic op lhs rhs span | comparison op lhs rhs span | infixed name lhs rhs span =>
          rw [fill, hchildren lhs (by simp [children]), hchildren rhs (by simp [children])]
      | prefixed name child span | postfixed name child span
      | definition form parameters child span =>
          rw [fill, hchildren child (by simp [children])]
      | nullary name span => rw [fill, hroot name rfl, Option.getD_none]
      | call name args span =>
          cases args with
          | nil => rw [fill, hroot name rfl, Option.getD_none]
          | cons first others =>
              rw [fill, fillAll_eq_map]
              exact congrArg (call name · span) hall
      | program definitions span =>
          rw [fill, fillAll_eq_map]
          exact congrArg (program · span) hall

end Fill

end Tree

end DiceLang
