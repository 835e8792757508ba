import DiceLang.Proofs.Environment
import DiceLang.Proofs.Evaluation.Relation
import DiceLang.Proofs.Tree.WellFormed

/-!
# Scopes stay well formed

An environment is well formed if every command in it suits the form that it is bound to.  Calls make
new scopes all the time: the parameters of a command are bound to the arguments, which are pieces of
well-formed trees.  So they stay well formed.

To speak of all scopes that an evaluation comes through, `evalWhere` looks at each of them before
anything is evaluated in it, and gives an alarm if it does not pass.  `evalWhere_wellFormed` says that
the alarm is never given.
-/

namespace DiceLang

namespace Environment

/-- Every command suits the form that it is bound to. -/
def WellFormed (env : Environment) : Prop :=
  env.All fun form command => command.Suits form

instance : DecidablePred WellFormed := fun env =>
  inferInstanceAs (Decidable (∀ binding ∈ env.bindings, binding.2.Suits binding.1))

/-- Binding parameters to well-formed arguments keeps a scope well formed. -/
theorem WellFormed.extend {env : Environment} (h : env.WellFormed)
    {arguments : List (String × Tree)} (harguments : ∀ argument ∈ arguments, argument.2.WellFormed) :
    (env.extend arguments).WellFormed :=
  All.extend h fun argument hargument => ⟨rfl, List.nodup_nil, harguments argument hargument⟩

end Environment

/-- Evaluates an expression, but gives an alarm in every scope that is not `ok`. -/
def evalWhere (ok : Environment → Prop) [DecidablePred ok] (alarm : Failure)
    (registry : Registry) : (budget : Nat) → Environment → Tree → Eval Value
  | 0, env, _ => throw (if ok env then .tooDeep else alarm)
  | budget + 1, env, tree =>
    if ok env then evalNode registry (evalWhere ok alarm registry budget) env tree
    else throw alarm

/-- Evaluations that are the same as long as scopes are well formed. -/
def EvalRelation.keeping (registry : Registry) : EvalRelation where
  Rel m m' := m = m'
  Env env env' := env' = env ∧ env.WellFormed
  Good := Tree.WellFormed
  left := registry
  right := registry
  slack := 0
  pure _ := rfl
  bind := by
    rintro α β m _ f f' rfl hf
    exact bind_congr hf
  mistake _ _ _ := rfl
  deep := .inl ⟨rfl, rfl⟩
  builtin form := by
    cases registry.get? form with
    | none => exact .inl ⟨rfl, rfl⟩
    | some command => exact .inr ⟨command, command, rfl, rfl, rfl, rfl, fun _ _ _ _ => rfl⟩
  child htree hchild := htree.child hchild
  stuck _ _ := rfl
  lookup := by
    rintro env _ ⟨rfl, henv⟩ form
    exact .inl ⟨rfl, fun command hcommand => (henv.get? hcommand).body⟩
  extend := by
    rintro env _ ⟨rfl, henv⟩ arguments harguments
    exact ⟨rfl, henv.extend harguments⟩

/-- **Scopes stay well formed.**  Whatever the alarm is, it is never given: evaluation of well-formed
code comes through well-formed scopes only. -/
theorem evalWhere_wellFormed (alarm : Failure) (registry : Registry) (budget : Nat)
    {env : Environment} (henv : env.WellFormed) {tree : Tree} (htree : tree.WellFormed) :
    evalWhere Environment.WellFormed alarm registry budget env tree =
      eval registry budget env tree := by
  induction budget generalizing env tree with
  | zero =>
      rw [evalWhere, if_pos henv]
      rfl
  | succ budget ih =>
      have hsame : (EvalRelation.keeping registry).Env env env := ⟨rfl, henv⟩
      rw [evalWhere, if_pos henv, eval_succ]
      refine (EvalRelation.keeping registry).node ?_ hsame htree
      rintro scope _ ⟨rfl, hscope⟩ tree htree
      exact ih hscope htree

end DiceLang
