import DiceLang.Proofs.Tree.Calls

/-!
# What an evaluation can reach

An evaluation asks an environment for the forms that its expression calls, and for those that are
called in the bodies of the commands it finds.  `Environment.Reaches` is the least set of forms that is
closed under that.  Parameters are among them: a body that refers to a parameter calls it.

Scopes come and go in the course of an evaluation, but what they bind parameters to are pieces of
reachable code.  So two environments that agree on what is reachable keep doing so
(`Environment.AgreesOn.extend`), and evaluation cannot tell them apart: `evaluate_reads_reachable`.
A command of the user with a built-in form is never asked for.
-/

namespace DiceLang

namespace Environment

/-- The forms that the evaluation of a tree can ask an environment for: those that the tree calls,
and those that are called in the body of a command whose form is among them and not built in. -/
inductive Reaches (registry : Registry) (env : Environment) (tree : Tree) : Form → Prop
  | called {form : Form} (hcalled : form ∈ tree.calls) : Reaches registry env tree form
  | body {form called : Form} {command : Command}
      (hform : Reaches registry env tree form)
      (hown : registry.get? form = none)
      (hbound : env.get? form = some command)
      (hcalled : called ∈ command.body.calls) :
      Reaches registry env tree called

/-- Whatever list of forms has those that a tree calls, and is closed under the calls of bodies, has
all forms that can be reached. -/
theorem Reaches.mem {registry : Registry} {env : Environment} {tree : Tree} {forms : List Form}
    (htree : tree.calls ⊆ forms)
    (hbodies : ∀ form ∈ forms, registry.get? form = none →
      ∀ command ∈ env.get? form, command.body.calls ⊆ forms)
    {form : Form} (h : env.Reaches registry tree form) : form ∈ forms := by
  induction h with
  | called hcalled => exact htree hcalled
  | body _ hown hbound hcalled ih => exact hbodies _ ih hown _ hbound hcalled

/-- Two environments bind the forms of a set alike, apart from those that are built in, and to bodies
that call forms of the set only. -/
def AgreesOn (registry : Registry) (forms : Form → Prop) (env env' : Environment) : Prop :=
  ∀ form, forms form → registry.get? form = none →
    env'.get? form = env.get? form ∧
    ∀ command, env.get? form = some command → ∀ called ∈ command.body.calls, forms called

variable {registry : Registry} {forms : Form → Prop} {env env' : Environment}

/-- A command may be added on both sides if it calls only forms on which they agree. -/
theorem AgreesOn.insert (h : AgreesOn registry forms env env') (form : Form) {command : Command}
    (hcommand : ∀ called ∈ command.body.calls, forms called) :
    AgreesOn registry forms (env.insert form command) (env'.insert form command) := by
  intro other hother hown
  rw [get?_insert, get?_insert]
  by_cases hsame : other = form
  · rw [if_pos hsame, if_pos hsame]
    refine ⟨rfl, ?_⟩
    intro bound hbound
    cases hbound
    exact hcommand
  · rw [if_neg hsame, if_neg hsame]
    exact h other hother hown

/-- Binding parameters alike, to arguments that call forms of the set only, keeps agreement. -/
theorem AgreesOn.extend (h : AgreesOn registry forms env env') {arguments : List (String × Tree)}
    (harguments : ∀ argument ∈ arguments, ∀ called ∈ argument.2.calls, forms called) :
    AgreesOn registry forms (env.extend arguments) (env'.extend arguments) := by
  induction arguments generalizing env env' with
  | nil => exact h
  | cons argument arguments ih =>
      obtain ⟨hfirst, hothers⟩ := List.forall_mem_cons.mp harguments
      exact ih (h.insert _ hfirst) hothers

end Environment

/-- Evaluations of trees that call forms of a set only, where two environments agree on the set.  They
ask for the same rolls, and come to the same with them. -/
def Simulation.reaching (registry : Registry) (forms : Form → Prop) : Simulation where
  Rel m m' := m.run = m'.run
  Env := Environment.AgreesOn registry forms
  Match tree tree' := tree = tree' ∧ ∀ called ∈ tree.calls, forms called
  Spans := Eq
  left := registry
  right := registry
  pure _ := rfl
  bind := by
    intro α β m m' f f' h hf
    obtain rfl : m = m' := ExceptT.ext h
    have hsame : m >>= f = m >>= f' := bind_congr fun a => ExceptT.ext (hf a)
    rw [hsame]
  span := by
    rintro tree _ ⟨rfl, -⟩
    rfl
  mistake := by
    rintro α env env' tree tree' cause span _ - - - rfl
    rfl
  stuck _ _ := rfl
  builtin := by
    rintro tree _ form ⟨rfl, -⟩ -
    cases registry.get? form with
    | none => exact .inl ⟨rfl, rfl⟩
    | some command => exact .inr ⟨command, command, rfl, rfl, rfl, rfl, fun _ => rfl⟩
  lookup := by
    rintro env env' tree _ form henv ⟨rfl, htree⟩ - hform - hown
    obtain ⟨hsame, hbodies⟩ := henv form (htree form (Tree.mem_calls_of_form? hform)) hown
    cases hbound : env.get? form with
    | none => exact .inl ⟨rfl, hsame.trans hbound⟩
    | some command =>
        refine .inr (.inr ⟨command, command, rfl, hsame.trans hbound, rfl,
          ⟨rfl, hbodies command hbound⟩, henv.extend ?_⟩)
        rintro ⟨name, argument⟩ hmem called hcalled
        exact htree called (Tree.calls_subset_of_mem_children (List.of_mem_zip hmem).2 hcalled)

/-- Environments that agree on the forms of a set give a tree that calls no others the same
evaluation, whatever the budget. -/
theorem eval_agreesOn {registry : Registry} {forms : Form → Prop} (budget : Nat)
    {env env' : Environment} (henv : Environment.AgreesOn registry forms env env') {tree : Tree}
    (htree : ∀ called ∈ tree.calls, forms called) :
    eval registry budget env tree = eval registry budget env' tree := by
  induction budget generalizing env env' tree with
  | zero => rfl
  | succ budget ih =>
      rw [eval_succ, eval_succ]
      have hself : (Simulation.reaching registry forms).Match tree tree := ⟨rfl, htree⟩
      apply ExceptT.ext
      refine (Simulation.reaching registry forms).node ?_ henv hself (.refl fun child hchild => ?_)
      · rintro env env' henv tree _ ⟨rfl, htree⟩
        exact congrArg ExceptT.run (ih henv htree)
      · exact ⟨rfl, fun called hcalled =>
          htree called (Tree.calls_subset_of_mem_children hchild hcalled)⟩

/-- **Evaluation reads what it can reach, and nothing else.**  If two environments bind every form
alike that can be reached from an expression and is not built in, then evaluating the expression is
one and the same computation in both: whatever the dice, it makes the same draws and ends in the same
value or the same failure, span included.  What else is bound, in which order, and whether a built-in
form is bound, makes no difference. -/
theorem evaluate_reads_reachable (registry : Registry) (env env' : Environment) (tree : Tree)
    (h : ∀ form, env.Reaches registry tree form → registry.get? form = none →
      env'.get? form = env.get? form) :
    evaluate registry env' tree = evaluate registry env tree := by
  have hagree : Environment.AgreesOn registry (env.Reaches registry tree) env env' :=
    fun form hform hown => ⟨h form hform hown, fun command hbound called hcalled =>
      .body hform hown hbound hcalled⟩
  unfold evaluate evaluateWithin
  rw [eval_agreesOn evaluationLimit hagree fun called => .called]

/-- An environment with `f "x" => x D 6`. -/
def rollingEnvironment : Environment :=
  ⟨[(⟨"f", .prefixed⟩, ⟨["x"], .infixed "D" (.nullary "x" none) (.integer 6 none) none⟩)]⟩

/-- The same among other things: a command of another shape by the name of `f`, and a command that
would take the place of dice. -/
def crowdedEnvironment : Environment :=
  ⟨[(⟨"D", .infixed⟩, ⟨["a", "b"], .integer 7 none⟩), (⟨"f", .nullary⟩, ⟨[], .integer 1 none⟩),
    (⟨"f", .prefixed⟩, ⟨["x"], .infixed "D" (.nullary "x" none) (.integer 6 none) none⟩)]⟩

/-- A command that is never called makes no difference. -/
theorem evaluate_reads_reachable_rolling :
    evaluate .standard crowdedEnvironment (.prefixed "f" (.integer 2 none) none) =
      evaluate .standard rollingEnvironment (.prefixed "f" (.integer 2 none) none) := by
  refine evaluate_reads_reachable .standard rollingEnvironment crowdedEnvironment _ ?_
  intro form hform hown
  have hmem : form ∈ [⟨"f", .prefixed⟩, ⟨"x", .nullary⟩, ⟨"D", .infixed⟩] :=
    hform.mem (by decide) (by decide)
  simp only [List.mem_cons, List.not_mem_nil, or_false] at hmem
  rcases hmem with rfl | rfl | rfl
  · rfl
  · rfl
  · cases hown

end DiceLang
