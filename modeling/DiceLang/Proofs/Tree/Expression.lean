import DiceLang.Proofs.Tree.Sound

/-!
# Trees that are expressions

A tree can hold definitions where expressions belong, and then it cannot be evaluated.  What is read
from a text never does: `expression_isExpression` follows from the soundness of reading, because the
grammar gives expressions only.
-/

namespace DiceLang

namespace Tree

mutual

/-- Whether a tree is made of nodes that can be evaluated. -/
def isExpression : Tree → Bool
  | integer .. => true
  | arithmetic _ lhs rhs _ => lhs.isExpression && rhs.isExpression
  | comparison _ lhs rhs _ => lhs.isExpression && rhs.isExpression
  | nullary .. => true
  | prefixed _ rhs _ => rhs.isExpression
  | infixed _ lhs rhs _ => lhs.isExpression && rhs.isExpression
  | postfixed _ lhs _ => lhs.isExpression
  | call _ args _ => areExpressions args
  | hole _ | definition .. | program .. => false

/-- Whether several trees are made of nodes that can be evaluated. -/
def areExpressions : List Tree → Bool
  | [] => true
  | tree :: trees => tree.isExpression && areExpressions trees

end

theorem areExpressions_iff (trees : List Tree) :
    areExpressions trees = true ↔ ∀ tree ∈ trees, tree.isExpression = true := by
  induction trees with
  | nil => simp [areExpressions]
  | cons tree trees ih => simp [areExpressions, ih]

/-- The children of an expression are expressions. -/
theorem isExpression_of_mem_children {tree child : Tree} (h : tree.isExpression = true)
    (hchild : child ∈ tree.children) : child.isExpression = true := by
  cases tree with
  | integer | nullary | hole => cases hchild
  | definition | program => cases h
  | arithmetic op lhs rhs span | comparison op lhs rhs span | infixed name lhs rhs span =>
      obtain ⟨hlhs, hrhs⟩ := Bool.and_eq_true_iff.mp h
      rcases List.mem_pair.mp hchild with rfl | rfl
      · exact hlhs
      · exact hrhs
  | prefixed name rhs span | postfixed name rhs span =>
      obtain rfl := List.mem_singleton.mp hchild
      exact h
  | call name args span => exact (areExpressions_iff args).mp h child hchild

mutual

/-- Whether a tree is an expression does not depend on spans. -/
@[simp] theorem isExpression_erase : ∀ tree : Tree, tree.erase.isExpression = tree.isExpression
  | hole _ | integer .. | nullary .. | definition .. | program .. => by
      simp [erase, isExpression]
  | arithmetic _ lhs rhs _ | comparison _ lhs rhs _ | infixed _ lhs rhs _ => by
      simp [erase, isExpression, isExpression_erase lhs, isExpression_erase rhs]
  | prefixed _ tree _ | postfixed _ tree _ => by
      simp [erase, isExpression, isExpression_erase tree]
  | call _ args _ => by simp [erase, isExpression, areExpressions_eraseAll args]

theorem areExpressions_eraseAll :
    ∀ trees : List Tree, areExpressions (eraseAll trees) = areExpressions trees
  | [] => rfl
  | tree :: trees => by
      simp [eraseAll, areExpressions, isExpression_erase tree, areExpressions_eraseAll trees]

end

end Tree

namespace Grammar

/-- The trees of a phrase can be evaluated. -/
def Phrase.IsExpression : Phrase → Prop
  | primary tree | command tree | product tree | sum tree | relation tree | expression tree =>
      tree.isExpression = true
  | arguments trees => ∀ tree ∈ trees, tree.isExpression = true

/-- What tokens spell can be evaluated. -/
theorem Spells.isExpression {tokens : List Token} {phrase : Phrase} (h : Spells tokens phrase) :
    phrase.IsExpression := by
  induction h with
  | number | emptyCall | nullary => rfl
  | group _ _ _ ih => exact ih
  | singleCall _ _ _ _ ih =>
      have harg := ih _ List.mem_cons_self
      exact harg
  | call _ _ _ _ _ ih => exact (Tree.areExpressions_iff _).mpr ih
  | prefixed _ _ _ ih | postfixed _ _ ih => exact ih
  | operand _ ih | factor _ ih | summand _ ih | unordered _ ih | unequated _ ih => exact ih
  | infixed _ _ _ ihl ihr => exact Bool.and_eq_true_iff.mpr ⟨ihl, ihr⟩
  | multiplied _ _ _ _ ihl ihr | added _ _ _ _ ihl ihr | ordered _ _ _ _ ihl ihr
  | equated _ _ _ _ ihl ihr => exact Bool.and_eq_true_iff.mpr ⟨ihl, ihr⟩
  | argument _ ih =>
      intro tree htree
      obtain rfl := List.mem_singleton.mp htree
      exact ih
  | further _ _ _ ihl ihr =>
      intro tree htree
      rcases List.mem_append.mp htree with hfront | hlast
      · exact ihl tree hfront
      · obtain rfl := List.mem_singleton.mp hlast
        exact ihr

/-- What is read as an expression can be evaluated. -/
theorem expression_isExpression {limit : Nat} {tokens : List Token} {reading : Reading Tree tokens}
    (h : expression limit tokens = .ok reading) : reading.value.isExpression = true := by
  obtain ⟨taken, -, hspells⟩ := expression_sound h
  have herased : reading.value.erase.isExpression = true := hspells.isExpression
  rwa [Tree.isExpression_erase] at herased

end Grammar

end DiceLang
