import DiceLang.Form
import DiceLang.Source

/-!
# Syntax trees

A `Tree` is any node of the language: an expression, a definition or a block of definitions.
Nothing stops a tree from holding a definition where an expression belongs; evaluation refuses it
there.  What has been read from a text is sharper: a `Definition`, a `Program` or a `Line`, each of
which can be looked at as a tree.

Every node may carry the span it was read from.  Spans serve diagnostics only: two trees are the
same when `Tree.erase` makes them equal.

Operators in a row nest without bound, so a walk over a tree may have to give up on a deep one.
`Tree.depth` measures that, and `Tree.sameWithin` compares trees within a budget.
-/

namespace DiceLang

/-- The operators of arithmetic. -/
inductive Arithmetic
  | add
  | sub
  | mul
  | div
deriving DecidableEq

/-- The name of an operator in outlines. -/
def Arithmetic.label : Arithmetic → String
  | add => "ADD"
  | sub => "SUB"
  | mul => "MUL"
  | div => "DIV"

/-- The operators of comparison. -/
inductive Comparison
  | eq
  | ne
  | lt
  | le
  | gt
  | ge
deriving DecidableEq

/-- The name of an operator in outlines. -/
def Comparison.label : Comparison → String
  | eq => "EQ"
  | ne => "NE"
  | lt => "LT"
  | le => "LE"
  | gt => "GT"
  | ge => "GE"

/-- The nodes of the language. -/
inductive Tree
  /-- An expression that says nothing. -/
  | hole (span : Option Span)
  /-- An integer literal. -/
  | integer (value : Int) (span : Option Span)
  /-- Arithmetic on two operands. -/
  | arithmetic (op : Arithmetic) (lhs rhs : Tree) (span : Option Span)
  /-- A comparison of two operands. -/
  | comparison (op : Comparison) (lhs rhs : Tree) (span : Option Span)
  /-- A command without operands. -/
  | nullary (name : String) (span : Option Span)
  /-- A command before its operand. -/
  | prefixed (name : String) (rhs : Tree) (span : Option Span)
  /-- A command between its operands. -/
  | infixed (name : String) (lhs rhs : Tree) (span : Option Span)
  /-- A command after its operand. -/
  | postfixed (name : String) (lhs : Tree) (span : Option Span)
  /-- A command with its arguments in parentheses. -/
  | call (name : String) (args : List Tree) (span : Option Span)
  /-- A definition of a command: its form, its parameters and its body. -/
  | definition (form : Form) (parameters : List String) (body : Tree) (span : Option Span)
  /-- A block of definitions. -/
  | program (definitions : List Tree) (span : Option Span)

namespace Tree

/-- The span that a node carries. -/
def span? : Tree → Option Span
  | hole span => span
  | integer _ span => span
  | arithmetic _ _ _ span => span
  | comparison _ _ _ span => span
  | nullary _ span => span
  | prefixed _ _ span => span
  | infixed _ _ _ span => span
  | postfixed _ _ span => span
  | call _ _ span => span
  | definition _ _ _ span => span
  | program _ span => span

/-- The name of a node in outlines and messages. -/
def nodeName : Tree → String
  | hole _ => "Expression"
  | integer .. => "Integer"
  | arithmetic .. => "BinaryExpr"
  | comparison .. => "ComparisonExpr"
  | nullary .. => "NullaryCommand"
  | prefixed .. => "PrefixCommand"
  | infixed .. => "InfixCommand"
  | postfixed .. => "PostfixCommand"
  | call .. => "FunctionCall"
  | definition .. => "CommandDefinition"
  | program .. => "Program"

mutual

/-- A tree without its spans. -/
def erase : Tree → Tree
  | hole _ => hole none
  | integer value _ => integer value none
  | arithmetic op lhs rhs _ => arithmetic op lhs.erase rhs.erase none
  | comparison op lhs rhs _ => comparison op lhs.erase rhs.erase none
  | nullary name _ => nullary name none
  | prefixed name rhs _ => prefixed name rhs.erase none
  | infixed name lhs rhs _ => infixed name lhs.erase rhs.erase none
  | postfixed name lhs _ => postfixed name lhs.erase none
  | call name args _ => call name (eraseAll args) none
  | definition form parameters body _ => definition form parameters body.erase none
  | program definitions _ => program (eraseAll definitions) none

/-- Trees without their spans. -/
def eraseAll : List Tree → List Tree
  | [] => []
  | tree :: trees => tree.erase :: eraseAll trees

end

/-- Several trees lose their spans one by one. -/
theorem eraseAll_eq_map (trees : List Tree) : eraseAll trees = trees.map erase := by
  induction trees with
  | nil => rfl
  | cons tree trees ih => simp [eraseAll, ih]

/-- Two trees are the same when they differ at most in their spans. -/
def Same (a b : Tree) : Prop := a.erase = b.erase

mutual

/-- Decides whether two trees differ at most in their spans. -/
def same : Tree → Tree → Bool
  | hole _, hole _ => true
  | integer m _, integer n _ => m == n
  | arithmetic op lhs rhs _, arithmetic op' lhs' rhs' _ =>
    op == op' && lhs.same lhs' && rhs.same rhs'
  | comparison op lhs rhs _, comparison op' lhs' rhs' _ =>
    op == op' && lhs.same lhs' && rhs.same rhs'
  | nullary name _, nullary name' _ => name == name'
  | prefixed name rhs _, prefixed name' rhs' _ => name == name' && rhs.same rhs'
  | infixed name lhs rhs _, infixed name' lhs' rhs' _ =>
    name == name' && lhs.same lhs' && rhs.same rhs'
  | postfixed name lhs _, postfixed name' lhs' _ => name == name' && lhs.same lhs'
  | call name args _, call name' args' _ => name == name' && allSame args args'
  | definition form parameters body _, definition form' parameters' body' _ =>
    form == form' && parameters == parameters' && body.same body'
  | program definitions _, program definitions' _ => allSame definitions definitions'
  | _, _ => false

/-- Decides whether two lists hold the same trees in the same order. -/
def allSame : List Tree → List Tree → Bool
  | [], [] => true
  | tree :: trees, tree' :: trees' => tree.same tree' && allSame trees trees'
  | _, _ => false

end

mutual

/-- Trees are compared by what is left of them without spans. -/
theorem same_iff : ∀ a b : Tree, a.same b = true ↔ a.erase = b.erase := by
  intro a b
  cases a <;> cases b <;>
    simp [same, erase, same_iff, allSame_iff, and_assoc]

theorem allSame_iff : ∀ a b : List Tree, allSame a b = true ↔ eraseAll a = eraseAll b := by
  intro a b
  cases a <;> cases b <;> simp [allSame, eraseAll, same_iff, allSame_iff]

end

instance (a b : Tree) : Decidable (Same a b) :=
  decidable_of_iff _ (same_iff a b)

/-- The nodes right below a node, from left to right. -/
def children : Tree → List Tree
  | hole _ => []
  | integer .. => []
  | arithmetic _ lhs rhs _ => [lhs, rhs]
  | comparison _ lhs rhs _ => [lhs, rhs]
  | nullary .. => []
  | prefixed _ rhs _ => [rhs]
  | infixed _ lhs rhs _ => [lhs, rhs]
  | postfixed _ lhs _ => [lhs]
  | call _ args _ => args
  | definition _ _ body _ => [body]
  | program definitions _ => definitions

/-- Whether two nodes agree in all but their spans and what is below them. -/
def sameHead : Tree → Tree → Bool
  | hole _, hole _ => true
  | integer m _, integer n _ => m == n
  | arithmetic op _ _ _, arithmetic op' _ _ _ => op == op'
  | comparison op _ _ _, comparison op' _ _ _ => op == op'
  | nullary name _, nullary name' _ => name == name'
  | prefixed name _ _, prefixed name' _ _ => name == name'
  | infixed name _ _ _, infixed name' _ _ _ => name == name'
  | postfixed name _ _, postfixed name' _ _ => name == name'
  | call name _ _, call name' _ _ => name == name'
  | definition form parameters _ _, definition form' parameters' _ _ =>
    form == form' && parameters == parameters'
  | program .., program .. => true
  | _, _ => false

/-- Two trees are the same when their heads agree and the trees below are the same. -/
theorem same_eq (a b : Tree) :
    a.same b = (a.sameHead b && allSame a.children b.children) := by
  cases a <;> cases b <;> simp [same, sameHead, children, allSame, Bool.and_assoc]

/-- Compares two lists of trees from the front, with a comparison of trees that may give up. -/
def allSameBy (compare : Tree → Tree → Option Bool) : List Tree → List Tree → Option Bool
  | [], [] => some true
  | tree :: trees, tree' :: trees' => do
    if ← compare tree tree' then allSameBy compare trees trees' else return false
  | _, _ => some false

/-- Compares two trees from left to right up to the first difference, and gives up where they are
to be followed more than `budget` levels down. -/
def sameWithin : (budget : Nat) → Tree → Tree → Option Bool
  | 0, _, _ => none
  | budget + 1, a, b =>
    if a.sameHead b then allSameBy (sameWithin budget) a.children b.children else some false

private theorem allSameBy_eq {compare : Tree → Tree → Option Bool}
    (agrees : ∀ a b answer, compare a b = some answer → answer = a.same b) :
    ∀ (as bs : List Tree) (answer : Bool),
      allSameBy compare as bs = some answer → answer = allSame as bs
  | [], [], _, h => by simpa [allSameBy, allSame] using h.symm
  | [], _ :: _, _, h => by simpa [allSameBy, allSame] using h.symm
  | _ :: _, [], _, h => by simpa [allSameBy, allSame] using h.symm
  | a :: as, b :: bs, answer, h => by
    simp only [allSameBy, Option.bind_eq_bind, Option.bind_eq_some_iff] at h
    obtain ⟨first, hfirst, h⟩ := h
    have same_head := agrees a b first hfirst
    cases first with
    | false => simpa [allSame, ← same_head] using h.symm
    | true =>
      simp only [if_true] at h
      simpa [allSame, ← same_head] using allSameBy_eq agrees as bs answer h

/-- How many levels down trees are compared.  The number stands for the limit of the stack that an
interpreter sets, which is 1000 frames.  A level takes three of them, and some are in use before the
first. -/
def comparisonLimit : Nat := 320

/-- **A comparison within a budget is right.**  If it does not give up, it tells whether the trees
are the same. -/
theorem eq_same_of_sameWithin {budget : Nat} {a b : Tree} {answer : Bool}
    (h : sameWithin budget a b = some answer) : answer = a.same b := by
  induction budget generalizing a b answer with
  | zero => cases h
  | succ budget ih =>
    rw [same_eq]
    unfold sameWithin at h
    split at h
    · next heads =>
      rw [heads, Bool.true_and]
      exact allSameBy_eq (fun _ _ _ => ih) a.children b.children answer h
    · next heads =>
      cases h
      simp [heads]

mutual

/-- The number of nodes on the longest way down a tree. -/
def depth : Tree → Nat
  | hole _ => 1
  | integer .. => 1
  | arithmetic _ lhs rhs _ => max lhs.depth rhs.depth + 1
  | comparison _ lhs rhs _ => max lhs.depth rhs.depth + 1
  | nullary .. => 1
  | prefixed _ rhs _ => rhs.depth + 1
  | infixed _ lhs rhs _ => max lhs.depth rhs.depth + 1
  | postfixed _ lhs _ => lhs.depth + 1
  | call _ args _ => maxDepth args + 1
  | definition _ _ body _ => body.depth + 1
  | program definitions _ => maxDepth definitions + 1

/-- The depth of the deepest of several trees. -/
def maxDepth : List Tree → Nat
  | [] => 0
  | tree :: trees => max tree.depth (maxDepth trees)

end

end Tree

/-- A definition of a command, as it is read from a text. -/
structure Definition where
  form : Form
  parameters : List String
  body : Tree
  span : Option Span

/-- A definition as a node. -/
def Definition.toTree (definition : Definition) : Tree :=
  .definition definition.form definition.parameters definition.body definition.span

/-- A block of definitions, as it is read from a text. -/
structure Program where
  definitions : List Definition
  span : Option Span

/-- A block of definitions as a node. -/
def Program.toTree (program : Program) : Tree :=
  .program (program.definitions.map Definition.toTree) program.span

/-- What one line of input can be. -/
inductive Line
  | expression (tree : Tree)
  | program (block : Program)

/-- A line as a node. -/
def Line.toTree : Line → Tree
  | .expression tree => tree
  | .program block => block.toTree

end DiceLang
