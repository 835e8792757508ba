import DiceLang.Builtin
import DiceLang.Environment
import DiceLang.Value

/-!
# Evaluation

Expressions are evaluated from left to right against an environment and a registry of built-in
commands.  Arithmetic and the orderings want integers, equality takes any two values, and division
drops the remainder.

A call looks its form up among the built-in commands first and in the environment second.  A
built-in command evaluates its arguments; a command of the user has them bound to its parameters
unevaluated.  Scoping is dynamic, so a body may refer to itself and to whatever is bound when it is
called.

Nothing bounds the length of a chain of calls, so `eval` is given a budget of nested evaluations
and stops when it is spent; `evaluate` reports that as a fault of the whole expression.
-/

namespace DiceLang

/-- The integer that a value is, where an expression with the given span must be one. -/
def Value.asInteger (span : Option Span) : Value → Eval Int
  | .integer n => pure n
  | .boolean _ => throw (.ofCause .notInteger span)

/-- The result of arithmetic on two integers.  A fault points at the whole operation. -/
def Arithmetic.apply (op : Arithmetic) (a b : Int) (span : Option Span) : Eval Value :=
  match op with
  | .add => pure (.integer (a + b))
  | .sub => pure (.integer (a - b))
  | .mul => pure (.integer (a * b))
  | .div =>
    if b = 0 then throw (.ofCause .divisionByZero span)
    else pure (.integer (a.tdiv b))

/-- Whether an operator orders integers, rather than tell values apart. -/
def Comparison.isOrdering : Comparison → Bool
  | .eq | .ne => false
  | .lt | .le | .gt | .ge => true

/-- The outcome of comparing two values for equality. -/
def Comparison.equates (op : Comparison) (a b : Value) : Bool :=
  match op with
  | .ne => a != b
  | _ => a == b

/-- The outcome of ordering two integers. -/
def Comparison.orders (op : Comparison) (a b : Int) : Bool :=
  match op with
  | .lt => a < b
  | .le => a ≤ b
  | .gt => a > b
  | .ge => a ≥ b
  | .eq => a == b
  | .ne => a != b

/-- Evaluates an expression that must yield an integer. -/
def evalInteger (eval : Tree → Eval Value) (tree : Tree) : Eval Int := do
  let value ← eval tree
  value.asInteger tree.span?

/-- Evaluates expressions that must yield integers, from left to right. -/
def evalIntegers (eval : Tree → Eval Value) : List Tree → Eval (List Int)
  | [] => pure []
  | tree :: trees => do
    let n ← evalInteger eval tree
    let ns ← evalIntegers eval trees
    pure (n :: ns)

/-- Calls a built-in command: evaluates the arguments and acts on their values.  A fault of the
action points at the call. -/
def Builtin.call (command : Builtin) (eval : Tree → Eval Value) (args : List Tree)
    (span : Option Span) : Eval Value :=
  if args.length = command.arity then do
    let operands ← evalIntegers eval args
    let result ← ExceptT.adapt (Failure.orAt span) (command.action operands)
    pure (.integer result)
  else
    throw (.ofCause (.arity command.form.name command.arity args.length) span)

/-- Calls a command of the user: evaluates its body where its parameters are bound to the
arguments. -/
def Command.call (command : Command) (eval : Environment → Tree → Eval Value) (env : Environment)
    (form : Form) (args : List Tree) (span : Option Span) : Eval Value :=
  if args.length = command.parameters.length then
    eval (env.extend (command.parameters.zip args)) command.body
  else
    throw (.ofCause (.arity form.name command.parameters.length args.length) span)

/-- Finds the command of a form and calls it.  Expressions are evaluated by `eval`. -/
def invoke (registry : Registry) (eval : Environment → Tree → Eval Value) (env : Environment)
    (form : Form) (args : List Tree) (span : Option Span) : Eval Value :=
  match registry.get? form with
  | some command => command.call (eval env) args span
  | none =>
    match env.get? form with
    | some command => command.call eval env form args span
    | none => throw (.ofCause (.unknownForm form) span)

/-- Evaluates an expression, at most `budget` evaluations deep. -/
def eval (registry : Registry) : (budget : Nat) → Environment → Tree → Eval Value
  | 0, _, _ => throw .tooDeep
  | budget + 1, env, tree =>
    let call := invoke registry (eval registry budget) env
    match tree with
    | .integer n _ => pure (.integer n)
    | .arithmetic op lhs rhs span => do
      let a ← evalInteger (eval registry budget env) lhs
      let b ← evalInteger (eval registry budget env) rhs
      op.apply a b span
    | .comparison op lhs rhs _ =>
      if op.isOrdering then do
        let a ← evalInteger (eval registry budget env) lhs
        let b ← evalInteger (eval registry budget env) rhs
        pure (.boolean (op.orders a b))
      else do
        let a ← eval registry budget env lhs
        let b ← eval registry budget env rhs
        pure (.boolean (op.equates a b))
    | .nullary name span => call ⟨name, .nullary⟩ [] span
    | .prefixed name rhs span => call ⟨name, .prefixed⟩ [rhs] span
    | .infixed name lhs rhs span => call ⟨name, .infixed⟩ [lhs, rhs] span
    | .postfixed name lhs span => call ⟨name, .postfixed⟩ [lhs] span
    | .call name args span =>
      match Shape.ofArgumentCount? args.length with
      | some shape => call ⟨name, shape⟩ args span
      | none => throw (.ofCause (.shapeless name args.length) span)
    | .hole _ | .definition .. | .program .. => throw (.notExpression tree.nodeName)

/-- Blames a spent budget on an expression with the given span. -/
def Failure.blame (span : Option Span) : Failure → Failure
  | .tooDeep => .ofCause .recursion span
  | failure => failure

/-- Evaluates an expression within a budget and reports a spent budget as a fault of the whole
expression. -/
def evaluateWithin (budget : Nat) (registry : Registry) (env : Environment) (tree : Tree) :
    Eval Value :=
  ExceptT.adapt (Failure.blame tree.span?) (eval registry budget env tree)

/-- How deeply evaluations may be nested.  The number stands for the limit of the stack that an
interpreter sets, which is 1000 frames.  An evaluation takes two to four of them, depending on its node,
so from about 250 to about 500 evaluations can be nested; this number lies in between. -/
def evaluationLimit : Nat := 400

/-- Evaluates an expression. -/
def evaluate (registry : Registry) (env : Environment) (tree : Tree) : Eval Value :=
  evaluateWithin evaluationLimit registry env tree

end DiceLang
