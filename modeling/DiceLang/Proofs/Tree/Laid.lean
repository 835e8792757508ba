import DiceLang.Proofs.Grammar
import DiceLang.Proofs.Reading
import DiceLang.Proofs.Tree.Node

/-!
# Trees over token lists

Each node of a tree that has been read stands over a piece of the token list, and its span goes from
the start of the first token of that piece to the end of the last.  The pieces of its children lie
inside, in order and apart from each other: `Laid P tokens trees` says this of all nodes at once, and
that each of them meets `P` on its piece.

The piece of a command is all that was read for it.  Parentheses around an expression belong to no
node, so what was read for an expression is its piece with parentheses around it (`Wrapped`).  An
operator goes from the piece of one operand to the piece of the other, and leaves out the parentheses
that stand before the first and behind the second.  Its piece spells it only if there are none, which
is what `Delimits` says.
-/

namespace DiceLang

/-- Trees stand one behind the other over pieces of a token list, each with its children inside its
own piece.  All nodes meet a condition on their pieces. -/
inductive Laid (P : List Token → Tree → Prop) : List Token → List Tree → Prop
  | nil (gap : List Token) : Laid P gap []
  | cons (gap : List Token) {piece rest : List Token} {tree : Tree} {trees : List Tree}
      (hpiece : P piece tree) (hinside : Laid P piece tree.children) (hrest : Laid P rest trees) :
      Laid P (gap ++ (piece ++ rest)) (tree :: trees)

namespace Laid

variable {P Q : List Token → Tree → Prop} {tokens front back piece : List Token} {tree node : Tree}
  {trees others : List Tree}

/-- What is known of the pieces may be weakened. -/
theorem mono (h : Laid P tokens trees) (himp : ∀ piece tree, P piece tree → Q piece tree) :
    Laid Q tokens trees := by
  induction h with
  | nil gap => exact .nil gap
  | cons gap hpiece _ _ ihinside ihrest => exact .cons gap (himp _ _ hpiece) ihinside ihrest

/-- Further tokens may stand before the trees. -/
theorem before (front : List Token) (h : Laid P tokens trees) : Laid P (front ++ tokens) trees := by
  cases h with
  | nil => exact .nil _
  | cons gap hpiece hinside hrest =>
      rw [← List.append_assoc]
      exact .cons (front ++ gap) hpiece hinside hrest

/-- Trees that are laid over two lists are laid over both in a row. -/
theorem append (hfront : Laid P front trees) (hback : Laid P back others) :
    Laid P (front ++ back) (trees ++ others) := by
  induction hfront with
  | nil gap => exact hback.before gap
  | cons gap hpiece hinside _ _ ih =>
      rw [List.append_assoc, List.append_assoc]
      exact .cons gap hpiece hinside ih

/-- Further tokens may stand behind the trees. -/
theorem behind (h : Laid P tokens trees) (back : List Token) : Laid P (tokens ++ back) trees := by
  rw [← List.append_nil trees]
  exact h.append (.nil back)

/-- A tree is laid over its piece if its children are laid over that. -/
theorem single (hpiece : P piece tree) (hinside : Laid P piece tree.children) :
    Laid P piece [tree] := by
  rw [← List.append_nil piece]
  exact .cons [] hpiece hinside (.nil [])

/-- **Every node has its piece.** -/
theorem exists_piece (h : Laid P tokens trees) (htree : tree ∈ trees) (hnode : node ∈ tree.nodes) :
    ∃ front piece back, tokens = front ++ (piece ++ back) ∧ P piece node ∧
      Laid P piece node.children := by
  induction h generalizing tree with
  | nil => cases htree
  | @cons gap piece rest root trees hpiece hinside _ ihinside ihrest =>
      rcases List.mem_cons.mp htree with rfl | hother
      · rcases Tree.mem_nodes.mp hnode with rfl | ⟨child, hchild, hbelow⟩
        · exact ⟨gap, piece, rest, rfl, hpiece, hinside⟩
        · obtain ⟨front, inner, back, rfl, hinner⟩ := ihinside hchild hbelow
          exact ⟨gap ++ front, inner, back ++ rest, by simp, hinner⟩
      · obtain ⟨front, inner, back, rfl, hinner⟩ := ihrest hother hnode
        exact ⟨gap ++ (piece ++ front), inner, back, by simp, hinner⟩

end Laid

/-- A number or a name by itself is the one token that says it. -/
def Tree.OneToken (piece : List Token) : Tree → Prop
  | .integer value _ => ∃ token : Token, piece = [token] ∧ token.kind = .number ∧
      value = (Nat.ofDigitChars 10 token.lexeme.toList 0 : Nat)
  | .nullary name _ => ∃ token : Token, piece = [token] ∧ token.kind = .identifier ∧
      token.lexeme = name
  | _ => True

/-- A node knows the piece that it stands over. -/
structure Sits (piece : List Token) (tree : Tree) : Prop where
  span : ∃ span, tree.span? = some span ∧ Over piece span
  oneToken : tree.OneToken piece

/-- Whether a node is an operator between two operands. -/
def Tree.isOperation : Tree → Bool
  | .arithmetic .. | .comparison .. => true
  | _ => false

namespace Grammar

/-- A piece is cut off so that it spells the node that stands over it, unless it has cut through
parentheses.  Only operators do. -/
structure Delimits (piece : List Token) (tree : Tree) : Prop extends Sits piece tree where
  spelt : Matched piece → Spells piece (.expression tree.erase)
  matched : tree.isOperation = false → Matched piece

/-- What was read for an expression: the piece that it stands over, with parentheses around it. -/
def Wrapped (taken : List Token) (tree : Tree) : Prop :=
  ∃ opened piece closed, taken = opened ++ (piece ++ closed) ∧
    (∀ token ∈ opened, token.kind = .lparen) ∧ (∀ token ∈ closed, token.kind = .rparen) ∧
    Delimits piece tree ∧ Laid Delimits piece tree.children

variable {taken front back inner : List Token} {tree lhs rhs : Tree}

/-- A wrapped tree is laid over the tokens that it takes. -/
theorem Wrapped.laid (h : Wrapped taken tree) : Laid Delimits taken [tree] := by
  obtain ⟨opened, piece, closed, rfl, -, -, hpiece, hinside⟩ := h
  exact ((Laid.single hpiece hinside).behind closed).before opened

/-- Parentheses around it wrap a tree once more. -/
theorem Wrapped.group {opening closing : Token} (h : Wrapped inner tree)
    (hopening : opening.kind = .lparen) (hclosing : closing.kind = .rparen) :
    Wrapped (opening :: (inner ++ [closing])) tree := by
  obtain ⟨opened, piece, closed, rfl, hopened, hclosed, hpiece⟩ := h
  refine ⟨opening :: opened, piece, closed ++ [closing], by simp, ?_, ?_, hpiece⟩
  · exact List.forall_mem_cons.mpr ⟨hopening, hopened⟩
  · exact List.forall_mem_append.mpr ⟨hclosed, List.forall_mem_singleton.mpr hclosing⟩

/-- A command stands over all that was read for it. -/
theorem wrapped_of_command (hspells : Spells taken (.command tree.erase)) (hsits : Sits taken tree)
    (hinside : Laid Delimits taken tree.children) : Wrapped taken tree := by
  refine ⟨[], taken, [], by simp, nofun, nofun, ⟨hsits, ?_, ?_⟩, hinside⟩
  · exact fun _ => hspells.expression
  · exact fun _ => hspells.matched

/-- Tokens of one kind count for that kind only. -/
theorem countP_of_kind {tokens : List Token} {kind : Kind} (h : ∀ token ∈ tokens, token.kind = kind)
    (other : Kind) : tokens.countP (isKind other) = if kind = other then tokens.length else 0 := by
  split
  · next heq =>
      refine List.countP_eq_length.mpr fun token htoken => ?_
      simp [isKind, h token htoken, heq]
  · next hne =>
      exact countP_isKind_eq_zero fun token htoken hkind => hne ((h token htoken).symm.trans hkind)

/-- **Cut parentheses.**  If what is left without the parentheses at its two ends still matches, there
are none. -/
theorem eq_nil_of_matched {opened closed opened' closed' left right : List Token} {sign : Token}
    (hopened : ∀ token ∈ opened, token.kind = .lparen)
    (hclosed : ∀ token ∈ closed, token.kind = .rparen)
    (hopened' : ∀ token ∈ opened', token.kind = .lparen)
    (hclosed' : ∀ token ∈ closed', token.kind = .rparen) (hsign : isPlain sign.kind = true)
    (hfront : Balanced (opened ++ (left ++ closed)))
    (hback : Balanced (opened' ++ (right ++ closed')))
    (h : Matched (left ++ ((closed ++ sign :: opened') ++ right))) : opened = [] ∧ closed' = [] := by
  have hleft := h.opened (left ++ closed) ⟨sign :: (opened' ++ right), by simp⟩
  have hwhole := h.balanced
  have hplain := balanced_singleton hsign
  have hsides : opened.length = 0 ∧ closed'.length = 0 := by
    unfold Balanced at hfront hback hwhole hplain
    simp only [List.countP_append, List.countP_cons, List.countP_nil, countP_of_kind hopened,
      countP_of_kind hclosed, countP_of_kind hopened', countP_of_kind hclosed', reduceCtorEq,
      if_true, if_false] at hfront hback hleft hwhole hplain
    omega
  exact ⟨List.eq_nil_of_length_eq_zero hsides.1, List.eq_nil_of_length_eq_zero hsides.2⟩

/-- An operator stands over its operands, without the parentheses around them at its two ends. -/
theorem Wrapped.operation {node : Tree} {sign : Token} (hlhs : Wrapped front lhs)
    (hrhs : Wrapped back rhs) (hsign : isPlain sign.kind = true) (hfront : Balanced front)
    (hback : Balanced back) (hnode : node.isOperation = true) (hchildren : node.children = [lhs, rhs])
    (hspan : node.span? = joinSpans lhs.span? rhs.span?)
    (hspells : Spells (front ++ sign :: back) (.expression node.erase)) :
    Wrapped (front ++ sign :: back) node := by
  obtain ⟨opened, left, closed, rfl, hopened, hclosed, hleft, hbelow⟩ := hlhs
  obtain ⟨opened', right, closed', rfl, hopened', hclosed', hright, hbelow'⟩ := hrhs
  refine ⟨opened, left ++ ((closed ++ sign :: opened') ++ right), closed', by simp, hopened, hclosed',
    ⟨⟨?_, ?_⟩, ?_, ?_⟩, ?_⟩
  · obtain ⟨first, hfirst, hstart⟩ := hleft.span
    obtain ⟨last, hlast, hstop⟩ := hright.span
    exact ⟨first.through last, by rw [hspan, hfirst, hlast]; rfl, hstart.through _ hstop⟩
  · cases node <;> trivial
  · intro hmatched
    obtain ⟨rfl, rfl⟩ :=
      eq_nil_of_matched hopened hclosed hopened' hclosed' hsign hfront hback hmatched
    simpa using hspells
  · intro hnot
    cases hnode.symm.trans hnot
  · rw [hchildren]
    exact (Laid.single hleft hbelow).append ((Laid.single hright hbelow').before _)

end Grammar

end DiceLang
