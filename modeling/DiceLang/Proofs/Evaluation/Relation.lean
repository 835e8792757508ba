import DiceLang.Proofs.Evaluation.Simulation

/-!
# Comparing evaluations

Two evaluations of an expression, with different registries, environments or budgets, are compared
by a relation between computations.  An `EvalRelation` is such a relation that sequences keep, along
with a relation between environments that calls keep.  `EvalRelation.node` says that one node is then
related to its counterpart if whatever it evaluates is, which is a case of `Simulation.node`.
`EvalRelation.eval` says so of whole evaluations.
-/

namespace DiceLang

/-- A way of comparing evaluations. -/
structure EvalRelation where
  /-- When two computations are related. -/
  Rel {α : Type} : Eval α → Eval α → Prop
  /-- When two environments are related. -/
  Env : Environment → Environment → Prop
  /-- The trees that are compared. -/
  Good : Tree → Prop
  /-- The registry of the first evaluation. -/
  left : Registry
  /-- The registry of the second evaluation. -/
  right : Registry
  /-- How much deeper the second evaluation may go. -/
  slack : Nat
  pure {α : Type} (a : α) : Rel (pure a) (pure a)
  bind {α β : Type} {m m' : Eval α} {f f' : α → Eval β} :
    Rel m m' → (∀ a, Rel (f a) (f' a)) → Rel (m >>= f) (m' >>= f')
  /-- The mistakes of a node that is compared are related to themselves. -/
  mistake {α : Type} {env env' : Environment} {tree : Tree} {cause : Cause} {span : Option Span} :
    Env env env' → Good tree → Mistaken left env tree cause span →
    Rel (throw (.ofCause cause span) : Eval α) (throw (.ofCause cause span))
  deep : (slack = 0 ∧ Rel (throw .tooDeep : Eval Value) (throw .tooDeep)) ∨
    ∀ m : Eval Value, Rel (throw .tooDeep) m
  /-- A built-in command corresponds to one of the same form and arity. -/
  builtin (form : Form) :
    (left.get? form = none ∧ right.get? form = none) ∨
    ∃ command command', left.get? form = some command ∧ right.get? form = some command' ∧
      command'.form = command.form ∧ command'.arity = command.arity ∧
      ∀ tree, Good tree → tree.form? = some form → ∀ operands : List Int,
        Rel (ExceptT.adapt (Failure.orAt tree.span?) (command.action operands) : Eval Int)
          (ExceptT.adapt (Failure.orAt tree.span?) (command'.action operands))
  child {tree child : Tree} : Good tree → child ∈ tree.children → Good child
  /-- Trees that cannot be evaluated fail alike, if they are compared at all. -/
  stuck {tree : Tree} : Good tree → tree.isExpression = false →
    Rel (throw (.notExpression tree.nodeName) : Eval Value) (throw (.notExpression tree.nodeName))
  /-- A form is bound alike, or its absence is related to anything. -/
  lookup {env env' : Environment} : Env env env' → ∀ form,
    (env'.get? form = env.get? form ∧
      ∀ command, env.get? form = some command → Good command.body) ∨
    (env.get? form = none ∧
      ∀ span (m : Eval Value), Rel (throw (.ofCause (.unknownForm form) span)) m)
  extend {env env' : Environment} : Env env env' → ∀ {arguments : List (String × Tree)},
    (∀ argument ∈ arguments, Good argument.2) → Env (env.extend arguments) (env'.extend arguments)

namespace EvalRelation

variable (S : EvalRelation) {evalIn evalIn' : Environment → Tree → Eval Value}
  {env env' : Environment} {tree : Tree}

/-- The simulation of the first evaluation by the second, in which each tree is compared with
itself. -/
def simulation : Simulation where
  Rel := S.Rel
  Env := S.Env
  Match tree tree' := tree' = tree ∧ S.Good tree
  Spans := Eq
  left := S.left
  right := S.right
  pure := S.pure
  bind := S.bind
  span := by
    rintro _ tree ⟨rfl, -⟩
    rfl
  mistake := by
    rintro α env env' tree tree' cause span _ henv ⟨-, htree⟩ hmistaken rfl
    exact S.mistake henv htree hmistaken
  stuck := by
    rintro tree tree' ⟨-, htree⟩ hstuck
    exact S.stuck htree hstuck
  builtin := by
    rintro _ tree form ⟨rfl, htree⟩ hform
    rcases S.builtin form with hnone |
      ⟨command, command', hleft, hright, hsame, harity, haction⟩
    · exact .inl hnone
    · exact .inr ⟨command, command', hleft, hright, hsame, harity, haction tree htree hform⟩
  lookup := by
    rintro env env' _ tree form henv ⟨rfl, htree⟩ - - - -
    rcases S.lookup henv form with ⟨hsame, hbody⟩ | ⟨hnone, hlost⟩
    · cases hbound : env.get? form with
      | none => exact .inl ⟨rfl, hsame.trans hbound⟩
      | some command =>
          refine .inr (.inr ⟨command, command, rfl, hsame.trans hbound, rfl,
            ⟨rfl, hbody command hbound⟩, S.extend henv ?_⟩)
          rintro ⟨name, argument⟩ hmem
          exact S.child htree (List.of_mem_zip hmem).2
    · exact .inr (.inl ⟨hnone, hlost tree.span?⟩)

/-- **One node.**  In related environments a node that is compared is related to itself, if whatever
it evaluates is. -/
theorem node
    (h : ∀ env env', S.Env env env' → ∀ tree, S.Good tree →
      S.Rel (evalIn env tree) (evalIn' env' tree))
    (henv : S.Env env env') (htree : S.Good tree) :
    S.Rel (evalNode S.left evalIn env tree) (evalNode S.right evalIn' env' tree) := by
  have hself : S.simulation.Match tree tree := ⟨rfl, htree⟩
  refine S.simulation.node ?_ henv hself (.refl fun child hchild => ⟨rfl, S.child htree hchild⟩)
  rintro env env' henv _ tree ⟨rfl, htree⟩
  exact h env env' henv tree htree

/-- **Evaluations are related.**  In related environments, each expression that is compared is
related to itself. -/
theorem eval (budget : Nat) (henv : S.Env env env') (htree : S.Good tree) :
    S.Rel (eval S.left budget env tree) (eval S.right (budget + S.slack) env' tree) := by
  induction budget generalizing env env' tree with
  | zero =>
      rcases S.deep with ⟨hslack, hdeep⟩ | hdeep
      · rw [hslack]
        exact hdeep
      · exact hdeep _
  | succ budget ih =>
      rw [Nat.add_right_comm, eval_succ, eval_succ]
      exact S.node (fun _ _ henv _ htree => ih henv htree) henv htree

end EvalRelation

end DiceLang
