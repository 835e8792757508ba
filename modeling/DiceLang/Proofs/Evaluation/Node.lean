import DiceLang.Evaluation

/-!
# One node of an evaluation

What evaluation does with a node depends on the evaluation of other trees only through a function
that is handed to it: `evalNode` takes that function as an argument, and `eval_succ` says that `eval`
is `evalNode` on itself with a smaller budget.  All calls are alike for it: `Tree.form?` is the form
that a node calls, and its children are the arguments.

`Mistaken` lists the mistakes that a node can make on its own account, with the span that each of them
points at.  Complaints about dice are left to the built-in commands.
-/

namespace DiceLang

namespace Tree

/-- The form that a node calls, if it is a call and has one. -/
def form? : Tree → Option Form
  | nullary name _ => some ⟨name, .nullary⟩
  | prefixed name _ _ => some ⟨name, .prefixed⟩
  | infixed name _ _ _ => some ⟨name, .infixed⟩
  | postfixed name _ _ => some ⟨name, .postfixed⟩
  | call name args _ => (Shape.ofArgumentCount? args.length).map (⟨name, ·⟩)
  | hole _ | integer .. | arithmetic .. | comparison .. | definition .. | program .. => none

/-- Whether the operands of a node have to be integers: so it is in arithmetic, in orderings and in
calls of built-in commands. -/
def wantsIntegers (registry : Registry) : Tree → Bool
  | arithmetic .. => true
  | comparison op .. => op.isOrdering
  | tree => tree.form?.any registry.contains

/-- A command wants integers if it is built in. -/
theorem wantsIntegers_of_form? {registry : Registry} {tree : Tree} {form : Form}
    (hform : tree.form? = some form) :
    tree.wantsIntegers registry = registry.contains form := by
  cases tree with
  | nullary | prefixed | infixed | postfixed | call => simp [wantsIntegers, hform]
  | hole | integer | arithmetic | comparison | definition | program => cases hform

end Tree

/-- The built-in commands are infix, take two arguments and roll dice. -/
theorem Registry.get?_standard_eq_some {form : Form} {command : Builtin}
    (h : Registry.standard.get? form = some command) :
    form.shape = .infixed ∧ command.arity = 2 ∧ command.action = Builtin.rollAction := by
  have hmem : command ∈ [Builtin.dice "D", Builtin.dice "d"] := List.mem_of_find?_eq_some h
  obtain rfl : command.form = form := by simpa using List.find?_some h
  rcases List.mem_cons.mp hmem with rfl | hmem
  · exact ⟨rfl, rfl, rfl⟩
  · obtain rfl := List.mem_singleton.mp hmem
    exact ⟨rfl, rfl, rfl⟩

/-- Evaluates one node, and whatever else that takes by `recur`. -/
def evalNode (registry : Registry) (recur : Environment → Tree → Eval Value) (env : Environment)
    (tree : Tree) : Eval Value :=
  match tree.form? with
  | some form => invoke registry recur env form tree.children tree.span?
  | none =>
    match tree with
    | .integer n _ => pure (.integer n)
    | .arithmetic op lhs rhs span => do
      let a ← evalInteger (recur env) lhs
      let b ← evalInteger (recur env) rhs
      op.apply a b span
    | .comparison op lhs rhs _ =>
      if op.isOrdering then do
        let a ← evalInteger (recur env) lhs
        let b ← evalInteger (recur env) rhs
        pure (.boolean (op.orders a b))
      else do
        let a ← recur env lhs
        let b ← recur env rhs
        pure (.boolean (op.equates a b))
    | .call name args span => throw (.ofCause (.shapeless name args.length) span)
    | tree => throw (.notExpression tree.nodeName)

/-- **One step of evaluation.** -/
theorem eval_succ (registry : Registry) (budget : Nat) (env : Environment) (tree : Tree) :
    eval registry (budget + 1) env tree = evalNode registry (eval registry budget) env tree := by
  cases tree with
  | call name args span =>
      cases hshape : Shape.ofArgumentCount? args.length with
      | none => simp only [eval, evalNode, Tree.form?, hshape, Option.map_none]
      | some shape =>
          simp only [eval, evalNode, Tree.form?, hshape, Option.map_some, Tree.children, Tree.span?]
  | _ => rfl

/-- The mistakes that a node can make by itself, and what they point at. -/
inductive Mistaken (registry : Registry) (env : Environment) (tree : Tree) :
    Cause → Option Span → Prop
  /-- An operand that has to be an integer is a boolean. -/
  | notInteger {operand : Tree}
      (hwants : tree.wantsIntegers registry = true)
      (hoperand : operand ∈ tree.children) :
      Mistaken registry env tree .notInteger operand.span?
  | divisionByZero {lhs rhs : Tree} {span : Option Span}
      (htree : tree = .arithmetic .div lhs rhs span) :
      Mistaken registry env tree .divisionByZero tree.span?
  /-- Nothing has the form that is called. -/
  | unknownForm {form : Form}
      (hform : tree.form? = some form) :
      Mistaken registry env tree (.unknownForm form) tree.span?
  /-- Nothing could have the form that is called. -/
  | shapeless {name : String} {args : List Tree} {span : Option Span}
      (htree : tree = .call name args span) :
      Mistaken registry env tree (.shapeless name args.length) tree.span?
  /-- A built-in command does not take so many arguments. -/
  | builtinArity {form : Form} {command : Builtin}
      (hform : tree.form? = some form)
      (hcommand : registry.get? form = some command)
      (hcount : tree.children.length ≠ command.arity) :
      Mistaken registry env tree
        (.arity command.form.name command.arity tree.children.length) tree.span?
  /-- A command of the user does not take so many arguments. -/
  | arity {form : Form} {command : Command}
      (hform : tree.form? = some form)
      (hcommand : env.get? form = some command)
      (hcount : tree.children.length ≠ command.parameters.length) :
      Mistaken registry env tree
        (.arity form.name command.parameters.length tree.children.length) tree.span?

end DiceLang
