import DiceLang.Proofs.Evaluation.Relation
import DiceLang.Proofs.Rolling

/-!
# How evaluation ends

Evaluation of what was read from texts ends in a value or in a fault, with one exception: the
complaint about dice that cannot be rolled is lost if one of its numbers has too many digits.

To say when that happens, evaluation is compared with one whose complaints may be of any length, that
of `Registry.unlimited`.  It only ever raises faults (`evaluate_unlimited_raises`), and evaluation
proper differs from it in what `Failure.lose` does to some of them (`evaluate_standard`).
-/

namespace DiceLang

open Eval (Raises raises_pure raises_throw raises_lift)

/-- Rolls dice like `roll`, with a complaint that may be of any length. -/
def rollUnlimited (count sides : Int) : Eval Int :=
  if count < 0 || sides < 1 then throw (.ofCause (.invalidDice count sides) none)
  else ExceptT.lift (rollSum sides count.toNat 0)

namespace Builtin

/-- The action that rolls dice, with a complaint that may be of any length. -/
def unlimitedAction : List Int → Eval Int
  | [count, sides] => rollUnlimited count sides
  | _ => pure 0

/-- A command that rolls dice, with a complaint that may be of any length. -/
def unlimited (command : Builtin) : Builtin := { command with action := unlimitedAction }

end Builtin

/-- The built-in commands, with complaints that may be of any length. -/
def Registry.unlimited : Registry := ⟨Registry.standard.commands.map Builtin.unlimited⟩

/-- Whether a mistake can be put into words: a number with too many digits cannot be written. -/
def Cause.isWritable : Cause → Bool
  | invalidDice count sides => Text.isWritable count && Text.isWritable sides
  | _ => true

/-- Loses the mistakes that cannot be put into words. -/
def Failure.lose : Failure → Failure
  | .fault mistake => if mistake.cause.isWritable then .fault mistake else .digitLimit
  | failure => failure

section Adapt

variable {α β : Type}

theorem adapt_pure (g : Failure → Failure) (a : α) :
    ExceptT.adapt g (pure a : Eval α) = (pure a : Eval α) := rfl

/-- A failure is rewritten where it is raised. -/
theorem adapt_throw (g : Failure → Failure) (failure : Failure) :
    ExceptT.adapt g (throw failure : Eval α) = (throw (g failure) : Eval α) := rfl

/-- Rewriting the failures of two steps is rewriting those of each. -/
theorem adapt_bind (g : Failure → Failure) (m : Eval α) (f : α → Eval β) :
    ExceptT.adapt g (m >>= f) = ((ExceptT.adapt g m : Eval α) >>= fun a => ExceptT.adapt g (f a)) := by
  apply ExceptT.ext
  simp only [ExceptT.run_adapt, ExceptT.run_bind, ← bind_pure_comp, bind_assoc, pure_bind]
  refine bind_congr fun outcome => ?_
  cases outcome with
  | error failure => rfl
  | ok a => rfl

/-- A computation with the dice has no failures to rewrite. -/
theorem adapt_lift (g : Failure → Failure) (m : Rolling α) :
    ExceptT.adapt g (ExceptT.lift m : Eval α) = (ExceptT.lift m : Eval α) := by
  apply ExceptT.ext
  simp only [ExceptT.run_adapt, ExceptT.run_lift, ← bind_pure_comp, bind_assoc, pure_bind]
  rfl

/-- Rewriting twice is rewriting once. -/
theorem adapt_adapt (g g' : Failure → Failure) (m : Eval α) :
    ExceptT.adapt g (ExceptT.adapt g' m : Eval α) =
      (ExceptT.adapt (fun failure => g (g' failure)) m : Eval α) := by
  apply ExceptT.ext
  simp only [ExceptT.run_adapt, ← bind_pure_comp, bind_assoc, pure_bind]
  refine bind_congr fun outcome => ?_
  cases outcome <;> rfl

end Adapt

section Lose

/-- A roll fails as it would if complaints might be of any length, apart from what cannot be written. -/
theorem roll_eq_adapt (count sides : Int) :
    roll count sides = ExceptT.adapt Failure.lose (rollUnlimited count sides) := by
  unfold roll rollUnlimited
  split
  · rw [adapt_throw]
    rfl
  · rw [adapt_lift]

/-- The action of the command for rolls does the same. -/
theorem Builtin.rollAction_eq_adapt (operands : List Int) :
    rollAction operands = ExceptT.adapt Failure.lose (unlimitedAction operands) := by
  match operands with
  | [] | [_] | _ :: _ :: _ :: _ => rfl
  | [count, sides] => exact roll_eq_adapt count sides

/-- With complaints of any length the same forms are built in. -/
theorem Registry.get?_unlimited (form : Form) :
    Registry.unlimited.get? form = (Registry.standard.get? form).map Builtin.unlimited := by
  unfold get? unlimited
  rw [List.find?_map]
  rfl

/-- Pointing a mistake somewhere does not change what it is. -/
theorem orAt_fault (span : Option Span) (mistake : Fault) :
    ∃ pointed : Fault, (Failure.fault mistake).orAt span = .fault pointed ∧
      pointed.cause = mistake.cause := by
  obtain ⟨cause, place, line⟩ := mistake
  cases place with
  | none => exact ⟨_, rfl, rfl⟩
  | some place => exact ⟨_, rfl, rfl⟩

/-- Whether a complaint can be written does not depend on where it points. -/
theorem lose_orAt (span : Option Span) (failure : Failure) :
    failure.lose.orAt span = (failure.orAt span).lose := by
  cases failure with
  | fault mistake =>
      obtain ⟨pointed, hpointed, hcause⟩ := orAt_fault span mistake
      rw [hpointed]
      simp only [Failure.lose, hcause]
      split
      · exact hpointed
      · rfl
  | digitLimit | notExpression | tooDeep | mishap | withheld => rfl

theorem lose_blame (span : Option Span) (failure : Failure) :
    failure.lose.blame span = (failure.blame span).lose := by
  cases failure with
  | fault mistake =>
      by_cases hwritable : mistake.cause.isWritable = true
      · simp [Failure.lose, Failure.blame, hwritable]
      · simp [Failure.lose, Failure.blame, hwritable]
  | digitLimit | notExpression | tooDeep | mishap | withheld => rfl

/-- A complaint that can be written is not lost. -/
theorem lose_ofCause {cause : Cause} (h : cause.isWritable = true) (span : Option Span) :
    (Failure.ofCause cause span).lose = .ofCause cause span := if_pos h

/-- Only complaints about dice have numbers that may be too long. -/
theorem Mistaken.lose_ofCause {registry : Registry} {env : Environment} {tree : Tree} {cause : Cause}
    {span : Option Span} (h : Mistaken registry env tree cause span) :
    (Failure.ofCause cause span).lose = .ofCause cause span := by
  cases h <;> exact DiceLang.lose_ofCause rfl _

/-- The comparison of evaluation with one whose complaints may be of any length. -/
def EvalRelation.losing : EvalRelation where
  Rel m m' := m = ExceptT.adapt Failure.lose m'
  Env := Eq
  Good _ := True
  left := .standard
  right := .unlimited
  slack := 0
  pure a := (adapt_pure Failure.lose a).symm
  bind := by
    rintro α β m m' f f' rfl hf
    rw [adapt_bind]
    exact bind_congr hf
  mistake := by
    intro α env env' tree cause span _ _ hmistaken
    rw [adapt_throw, hmistaken.lose_ofCause]
  deep := .inl ⟨rfl, rfl⟩
  builtin form := by
    rw [Registry.get?_unlimited]
    cases hbuiltin : Registry.standard.get? form with
    | none => exact .inl ⟨rfl, rfl⟩
    | some command =>
        refine .inr ⟨command, command.unlimited, rfl, rfl, rfl, rfl, fun tree _ _ operands => ?_⟩
        rw [(Registry.get?_standard_eq_some hbuiltin).2.2, Builtin.rollAction_eq_adapt, adapt_adapt,
          adapt_adapt]
        simp only [lose_orAt]
        rfl
  child _ _ := trivial
  stuck _ _ := rfl
  lookup := by
    rintro env _ rfl form
    exact .inl ⟨rfl, fun _ _ => trivial⟩
  extend := by
    rintro env _ rfl arguments _
    rfl

/-- **Evaluation and lost complaints.**  Evaluation does what it would do if its complaints could be
of any length, and then loses those that cannot be put into words. -/
theorem eval_standard (budget : Nat) (env : Environment) (tree : Tree) :
    eval .standard budget env tree =
      ExceptT.adapt Failure.lose (eval .unlimited budget env tree) :=
  EvalRelation.losing.eval budget rfl trivial

/-- Evaluation is what it would be if complaints might be of any length, apart from those that cannot be
written. -/
theorem evaluate_standard (env : Environment) (tree : Tree) :
    evaluate .standard env tree = ExceptT.adapt Failure.lose (evaluate .unlimited env tree) := by
  unfold evaluate evaluateWithin
  rw [eval_standard, adapt_adapt, adapt_adapt]
  simp only [lose_blame]

end Lose

namespace Environment

/-- The bodies of all commands can be evaluated. -/
def Evaluable (env : Environment) : Prop :=
  ∀ form command, env.get? form = some command → command.body.isExpression = true

variable {env : Environment}

theorem empty_evaluable : Environment.empty.Evaluable := nofun

/-- A command whose body is an expression may be added. -/
theorem Evaluable.insert (h : env.Evaluable) (form : Form) {command : Command}
    (hbody : command.body.isExpression = true) : (env.insert form command).Evaluable := by
  intro other bound hbound
  rw [get?_insert] at hbound
  split at hbound
  · cases hbound
    exact hbody
  · exact h other bound hbound

theorem Evaluable.extend (h : env.Evaluable) {arguments : List (String × Tree)}
    (harguments : ∀ argument ∈ arguments, argument.2.isExpression = true) :
    (env.extend arguments).Evaluable := by
  induction arguments generalizing env with
  | nil => exact h
  | cons argument arguments ih =>
      obtain ⟨hfirst, hothers⟩ := List.forall_mem_cons.mp harguments
      exact ih (h.insert _ hfirst) hothers

theorem Evaluable.load (h : env.Evaluable) {block : Program}
    (hblock : ∀ definition ∈ block.definitions, definition.body.isExpression = true) :
    (env.load block).Evaluable := by
  unfold Environment.load
  generalize block.definitions = definitions at hblock
  induction definitions generalizing env with
  | nil => exact h
  | cons definition definitions ih =>
      obtain ⟨hfirst, hothers⟩ := List.forall_mem_cons.mp hblock
      exact ih (h.insert _ hfirst) hothers

end Environment

/-- The failures that are reported: mistakes, and chains of calls that are too deep. -/
def Failure.IsReported (failure : Failure) : Prop :=
  (∃ mistake, failure = .fault mistake) ∨ failure = .tooDeep

section Raising

theorem reported_ofCause (cause : Cause) (span : Option Span) :
    (Failure.ofCause cause span).IsReported := .inl ⟨_, rfl⟩

/-- If complaints may be of any length, rolling raises nothing but mistakes. -/
theorem Builtin.unlimitedAction_raises (operands : List Int) :
    Raises Failure.IsReported (unlimitedAction operands) := by
  unfold unlimitedAction
  split
  · unfold rollUnlimited
    split
    · exact raises_throw (reported_ofCause _ _)
    · exact raises_lift _
  · exact raises_pure _

theorem Builtin.adapt_unlimitedAction_raises (operands : List Int) (span : Option Span) :
    Raises Failure.IsReported (ExceptT.adapt (Failure.orAt span) (unlimitedAction operands)) := by
  refine (unlimitedAction_raises operands).adapt ?_
  rintro failure (⟨mistake, rfl⟩ | rfl)
  · obtain ⟨pointed, hpointed, -⟩ := orAt_fault span mistake
    exact .inl ⟨pointed, hpointed⟩
  · exact .inr rfl

/-- Evaluations that only raise what is reported.  There is nothing to compare them with, so the
second computation is left out of account. -/
def EvalRelation.raising : EvalRelation where
  Rel m _ := Raises Failure.IsReported m
  Env env env' := env' = env ∧ env.Evaluable
  Good tree := tree.isExpression = true
  left := .unlimited
  right := .unlimited
  slack := 0
  pure := raises_pure
  bind := Raises.bind
  mistake _ _ _ := raises_throw (reported_ofCause _ _)
  deep := .inl ⟨rfl, raises_throw (.inr rfl)⟩
  builtin form := by
    rw [Registry.get?_unlimited]
    cases Registry.standard.get? form with
    | none => exact .inl ⟨rfl, rfl⟩
    | some command =>
        exact .inr ⟨_, _, rfl, rfl, rfl, rfl, fun tree _ _ operands =>
          Builtin.adapt_unlimitedAction_raises operands tree.span?⟩
  child := Tree.isExpression_of_mem_children
  stuck := by
    intro tree hgood hstuck
    rw [hgood] at hstuck
    cases hstuck
  lookup := by
    rintro env _ ⟨rfl, henv⟩ form
    exact .inl ⟨rfl, henv form⟩
  extend := by
    rintro env _ ⟨rfl, henv⟩ arguments harguments
    exact ⟨rfl, henv.extend harguments⟩

theorem eval_unlimited_raises (budget : Nat) {env : Environment} (henv : env.Evaluable)
    {tree : Tree} (htree : tree.isExpression = true) :
    Raises Failure.IsReported (eval .unlimited budget env tree) :=
  have hsame : EvalRelation.raising.Env env env := ⟨rfl, henv⟩
  EvalRelation.raising.eval budget hsame htree

/-- **Evaluation raises mistakes only**, if complaints may be of any length. -/
theorem evaluate_unlimited_raises {env : Environment} (henv : env.Evaluable) {tree : Tree}
    (htree : tree.isExpression = true) :
    Raises (fun failure => ∃ mistake, failure = .fault mistake)
      (evaluate .unlimited env tree) := by
  refine (eval_unlimited_raises evaluationLimit henv htree).adapt ?_
  rintro failure (⟨mistake, rfl⟩ | rfl)
  · exact ⟨mistake, rfl⟩
  · exact ⟨_, rfl⟩

end Raising

end DiceLang
