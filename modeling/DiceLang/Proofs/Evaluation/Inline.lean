import DiceLang.Proofs.Evaluation.Blame
import DiceLang.Proofs.Evaluation.Outcome
import DiceLang.Proofs.Evaluation.Reach
import DiceLang.Proofs.Evaluation.Scope
import DiceLang.Proofs.Limits
import DiceLang.Proofs.Reading

/-!
# Calls and written-out bodies

A call of a command evaluates its body where the parameters are bound to the arguments.  If no names
clash, that is the same as evaluating, where the call stands, the body with the arguments written in
for the parameters: `call_is_filled_body`.  It takes fewer levels to do so, hence only the call can go
too deep, and mistakes point elsewhere, since parameters are gone.

In the course of the two evaluations the scopes of further calls come on top of each other, and
arguments that mention parameters are passed on.  What the scopes have in common is
`Environment.FilledIn`: the parameters are bound on one side, and whatever else is bound on that side
is bound on the other side with the arguments written in.  The simulation `Simulation.filling` keeps
this in step, and a reference to a parameter is where the first evaluation takes a level more.
-/

namespace DiceLang

open Eval (Follows follows_throw)

/-- A failure as it is put into words: a mistake without what it points at. -/
def Failure.unplaced : Failure → Failure
  | .fault mistake => .ofCause mistake.cause none
  | failure => failure

/-- Where a failure is pointed does not show once it is taken from its place. -/
theorem Failure.unplaced_orAt (span : Option Span) (failure : Failure) :
    (failure.orAt span).unplaced = failure.unplaced := by
  cases failure with
  | fault mistake =>
      obtain ⟨pointed, hpointed, hcause⟩ := orAt_fault span mistake
      rw [hpointed]
      simp only [unplaced, hcause]
  | digitLimit | notExpression | tooDeep | mishap | withheld => rfl

theorem Failure.unplaced_blame (span : Option Span) (failure : Failure) :
    (failure.blame span).unplaced = failure.unplaced.blame none := by
  cases failure with
  | fault | digitLimit | notExpression | tooDeep | mishap | withheld => rfl

/-- Two computations have been played to the same value, or to failures of the same code and message,
and have left the dice in the same state. -/
def Alike {α σ : Type} (result result' : Except Failure α × σ) : Prop :=
  result'.1.mapError Failure.unplaced = result.1.mapError Failure.unplaced ∧ result'.2 = result.2

/-- A mistake has its code wherever it points. -/
theorem EndsIn.of_mapError_unplaced {α : Type} {code : String} {outcome : Except Failure α}
    (h : EndsIn code (outcome.mapError Failure.unplaced)) : EndsIn code outcome := by
  obtain ⟨mistake, hmistake, hcode⟩ := h
  obtain ⟨failure, hfailure, hunplaced⟩ := mapError_eq_error hmistake
  cases failure with
  | fault mistake' =>
      cases hunplaced
      exact ⟨mistake', hfailure, hcode⟩
  | digitLimit | notExpression | tooDeep | mishap | withheld => cases hunplaced

/-- Apart from places, a spent budget is reported after the rest of the failures have been looked at. -/
theorem adapt_unplaced_evaluateWithin (budget : Nat) (registry : Registry) (env : Environment)
    (tree : Tree) :
    (ExceptT.adapt Failure.unplaced (evaluateWithin budget registry env tree) : Eval Value) =
      ExceptT.adapt (Failure.blame none)
        (ExceptT.adapt Failure.unplaced (eval registry budget env tree) : Eval Value) := by
  unfold evaluateWithin
  rw [adapt_adapt, adapt_adapt]
  simp only [Failure.unplaced_blame]

/-- If evaluations follow each other apart from places, unless the first one goes too deep, then they
end alike, unless the first one ends in E206. -/
theorem alike_of_follows {budget : Nat} {registry : Registry} {env env' : Environment}
    {tree tree' : Tree}
    (h : Follows (· = .tooDeep) (ExceptT.adapt Failure.unplaced (eval registry budget env tree))
      (ExceptT.adapt Failure.unplaced (eval registry budget env' tree')))
    {σ : Type} [Dice σ] (dice : σ) :
    EndsIn "E206" ((evaluateWithin budget registry env tree).play dice).1 ∨
    Alike ((evaluateWithin budget registry env tree).play dice)
      ((evaluateWithin budget registry env' tree').play dice) := by
  have hplay := h.blame none none dice
  rw [← adapt_unplaced_evaluateWithin, ← adapt_unplaced_evaluateWithin,
    Eval.play_adapt _ (fun _ => rfl), Eval.play_adapt _ (fun _ => rfl)] at hplay
  rcases hplay with hends | hsame
  · exact .inl hends.of_mapError_unplaced
  · exact .inr (Prod.mk.inj hsame)

/-- A call of a command is the evaluation of its body in its scope, one level deeper. -/
theorem eval_call {registry : Registry} {env : Environment} {call : Tree} {form : Form}
    {command : Command} (hform : call.form? = some form) (hown : registry.get? form = none)
    (hbound : env.get? form = some command)
    (hlength : call.children.length = command.parameters.length) (budget : Nat) :
    eval registry (budget + 1) env call =
      eval registry budget (env.extend (command.parameters.zip call.children)) command.body := by
  rw [eval_succ]
  unfold evalNode invoke
  rw [hform]
  dsimp only
  rw [hown, hbound]
  exact if_pos hlength

/-- Referring to something that is bound to an expression is evaluating it, one level deeper. -/
theorem eval_reference {env : Environment} {reference argument : Tree} {name : String}
    (hform : reference.form? = some ⟨name, .nullary⟩)
    (hbound : env.get? ⟨name, .nullary⟩ = some ⟨[], argument⟩) (budget : Nat) :
    eval .standard (budget + 1) env reference = eval .standard budget env argument :=
  eval_call hform (Registry.get?_standard_nullary name) hbound
    (Tree.children_length_of_form? hform) budget

/-- The forms that a call uses: that of the command, and those of its parameters. -/
def InUse (form : Form) (names : List String) (called : Form) : Prop :=
  called = form ∨ ∃ name ∈ names, called = ⟨name, .nullary⟩

instance (form : Form) (names : List String) (called : Form) :
    Decidable (InUse form names called) :=
  inferInstanceAs (Decidable (called = form ∨ ∃ name ∈ names, called = ⟨name, .nullary⟩))

/-- No names clash in a call of a command of the given form with the given arguments: the command is
called neither in its own body nor in an argument or in another body, the parameters are called
neither in an argument nor in another body, and no other command has a parameter of the same name. -/
structure Environment.NoClash (env : Environment) (form : Form) (command : Command)
    (arguments : List Tree) : Prop where
  body : form ∉ command.body.calls
  argument {argument : Tree} : argument ∈ arguments →
    ∀ called ∈ argument.calls, ¬ InUse form command.parameters called
  other {form' : Form} {command' : Command} : form' ≠ form → env.get? form' = some command' →
    (∀ called ∈ command'.body.calls, ¬ InUse form command.parameters called) ∧
    ∀ name ∈ command'.parameters, name ∉ command.parameters

section Filling

variable {form : Form} {arguments : List (String × Tree)} {env env' : Environment}
  {tree tree' : Tree} {name : String}

/-- An argument that is found is among the arguments. -/
theorem mem_of_lookup {argument : Tree} (h : arguments.lookup name = some argument) :
    (name, argument) ∈ arguments := by
  obtain ⟨front, back, rfl, -⟩ := List.lookup_eq_some_iff.mp h
  exact List.mem_append_right front List.mem_cons_self

theorem lookup_eq_none (h : name ∉ arguments.map Prod.fst) : arguments.lookup name = none := by
  cases hargument : arguments.lookup name with
  | none => rfl
  | some argument => exact absurd (List.mem_map_of_mem (mem_of_lookup hargument)) h

theorem exists_lookup_eq_some (h : name ∈ arguments.map Prod.fst) :
    ∃ argument, arguments.lookup name = some argument := by
  obtain ⟨⟨_, argument⟩, hmem, rfl⟩ := List.mem_map.mp h
  cases hargument : arguments.lookup _ with
  | none =>
      have hdiffer := List.lookup_eq_none_iff.mp hargument _ hmem
      simp at hdiffer
  | some argument => exact ⟨argument, rfl⟩

/-- The second tree is the first one with the arguments written in, and the command is not called. -/
def Tree.FilledIn (form : Form) (arguments : List (String × Tree)) (tree tree' : Tree) : Prop :=
  tree' = tree.fill arguments ∧ form ∉ tree.calls

/-- A tree that calls neither the command nor a parameter stays as it is. -/
theorem Tree.filledIn_self
    (h : ∀ called ∈ tree.calls, ¬ InUse form (arguments.map Prod.fst) called) :
    tree.FilledIn form arguments tree := by
  constructor
  · refine (fill_eq_self fun name hname => ?_).symm
    exact lookup_eq_none fun hmem => h _ hname (.inr ⟨name, hmem, rfl⟩)
  · intro hcalled
    exact h form hcalled (.inl rfl)

/-- The first environment binds the parameters to the arguments.  Any other form, apart from that of
the command, is bound on both sides or on neither, to a command that has the same parameters and whose
body has the arguments written in on the second side. -/
structure Environment.FilledIn (form : Form) (arguments : List (String × Tree))
    (env env' : Environment) : Prop where
  parameter {name : String} {argument : Tree} : (name, argument) ∈ arguments →
    env.get? ⟨name, .nullary⟩ = some ⟨[], argument⟩
  other {called : Form} : ¬ InUse form (arguments.map Prod.fst) called →
    (env.get? called = none ∧ env'.get? called = none) ∨
    ∃ command command', env.get? called = some command ∧ env'.get? called = some command' ∧
      command'.parameters = command.parameters ∧
      (∀ name ∈ command.parameters, name ∉ arguments.map Prod.fst) ∧
      command.body.FilledIn form arguments command'.body

/-- A name that is no parameter may be bound on both sides. -/
theorem Environment.FilledIn.insert (h : env.FilledIn form arguments env')
    (hname : name ∉ arguments.map Prod.fst) (htree : tree.FilledIn form arguments tree') :
    (env.insert ⟨name, .nullary⟩ ⟨[], tree⟩).FilledIn form arguments
      (env'.insert ⟨name, .nullary⟩ ⟨[], tree'⟩) where
  parameter := by
    intro parameter argument hmem
    have hdiffer : (⟨parameter, .nullary⟩ : Form) ≠ ⟨name, .nullary⟩ := by
      intro hsame
      cases hsame
      exact hname (List.mem_map_of_mem hmem)
    rw [get?_insert, if_neg hdiffer]
    exact h.parameter hmem
  other := by
    intro called hcalled
    rw [get?_insert, get?_insert]
    by_cases hsame : called = ⟨name, .nullary⟩
    · rw [if_pos hsame, if_pos hsame]
      exact .inr ⟨⟨[], tree⟩, ⟨[], tree'⟩, rfl, rfl, rfl, nofun, htree⟩
    · rw [if_neg hsame, if_neg hsame]
      exact h.other hcalled

/-- The scopes of a call are related, if the environments and the arguments of the call are. -/
theorem Environment.FilledIn.extend (h : env.FilledIn form arguments env') {names : List String}
    (hnames : ∀ name ∈ names, name ∉ arguments.map Prod.fst) {trees trees' : List Tree}
    (htrees : List.Forall₂ (Tree.FilledIn form arguments) trees trees') :
    (env.extend (names.zip trees)).FilledIn form arguments (env'.extend (names.zip trees')) := by
  induction htrees generalizing names env env' with
  | nil =>
      rw [List.zip_nil_right]
      exact h
  | cons htree _ ih =>
      cases names with
      | nil => exact h
      | cons name names =>
          obtain ⟨hfirst, hothers⟩ := List.forall_mem_cons.mp hnames
          exact ih (h.insert hfirst htree) hothers

variable (hfresh : ∀ argument ∈ arguments, ∀ called ∈ argument.2.calls,
  ¬ InUse form (arguments.map Prod.fst) called)

/-- Evaluations where parameters are bound to arguments, and of what comes of writing these in.  They
are compared without the places of mistakes, and the first one may go too deep. -/
def Simulation.filling : Simulation where
  Rel m m' := Follows (· = .tooDeep) (ExceptT.adapt Failure.unplaced m)
    (ExceptT.adapt Failure.unplaced m')
  Env := Environment.FilledIn form arguments
  Match := Tree.FilledIn form arguments
  Spans _ _ := True
  left := .standard
  right := .standard
  pure a := .refl _
  bind := by
    intro α β m m' f f' h hf
    rw [adapt_bind, adapt_bind]
    exact h.bind hf
  span _ := trivial
  mistake _ _ _ _ := .refl _
  stuck _ _ := .refl _
  builtin := by
    intro tree tree' called _ _
    cases hbuiltin : Registry.standard.get? called with
    | none => exact .inl ⟨rfl, rfl⟩
    | some command =>
        refine .inr ⟨command, command, rfl, rfl, rfl, rfl, fun operands => ?_⟩
        rw [adapt_adapt, adapt_adapt]
        simp only [Failure.unplaced_orAt]
        exact .refl _
  lookup := by
    rintro env env' tree tree' called henv ⟨rfl, hform⟩ hchildren hcalled hcalled' -
    have hnotInUse : ¬ InUse form (arguments.map Prod.fst) called := by
      rintro (rfl | ⟨name, hname, rfl⟩)
      · exact hform (Tree.mem_calls_of_form? hcalled)
      · obtain ⟨argument, hargument⟩ := exists_lookup_eq_some hname
        rw [Tree.fill_of_lookup hcalled hargument] at hcalled'
        exact hfresh _ (mem_of_lookup hargument) _ (Tree.mem_calls_of_form? hcalled')
          (.inr ⟨name, hname, rfl⟩)
    rcases henv.other hnotInUse with hnone |
      ⟨command, command', hbound, hbound', hparameters, hnames, hbody⟩
    · exact .inl hnone
    · exact .inr (.inr ⟨command, command', hbound, hbound', hparameters, hbody,
        henv.extend hnames hchildren⟩)

include hfresh

/-- **Filled-in trees follow.**  Where the parameters are bound to the arguments, a tree is followed,
apart from places, by what comes of writing the arguments in. -/
theorem eval_filledIn {budget larger : Nat} (hbudget : budget ≤ larger)
    (henv : env.FilledIn form arguments env') (htree : tree.FilledIn form arguments tree') :
    Follows (· = .tooDeep) (ExceptT.adapt Failure.unplaced (eval .standard budget env tree))
      (ExceptT.adapt Failure.unplaced (eval .standard larger env' tree')) := by
  induction budget generalizing larger env env' tree tree' with
  | zero =>
      refine follows_throw ?_ _
      rfl
  | succ budget ih =>
      by_cases hreference : ∃ name argument, tree.form? = some ⟨name, .nullary⟩ ∧
          arguments.lookup name = some argument
      · -- The argument takes a level more on the first side, where it has to be looked up.
        obtain ⟨name, argument, hform, hargument⟩ := hreference
        have hmem := mem_of_lookup hargument
        obtain ⟨rfl, -⟩ := htree
        rw [eval_reference hform (henv.parameter hmem), Tree.fill_of_lookup hform hargument]
        exact ih (by omega) henv (Tree.filledIn_self (hfresh _ hmem))
      · cases larger with
        | zero => omega
        | succ larger =>
            rw [eval_succ, eval_succ]
            have hsmaller : budget ≤ larger := by omega
            refine (Simulation.filling hfresh).node
              (fun env env' henv tree tree' htree => ih hsmaller henv htree) henv htree ?_
            obtain ⟨rfl, hcalled⟩ := htree
            refine Tree.parallel_fill ?_ ?_
            · intro name hform
              cases hargument : arguments.lookup name with
              | none => rfl
              | some argument => exact absurd ⟨name, argument, hform, hargument⟩ hreference
            · intro child hchild
              exact ⟨rfl, fun hmem => hcalled (Tree.calls_subset_of_mem_children hchild hmem)⟩

end Filling

namespace Environment

variable {env : Environment} {form called : Form} {command : Command} {trees : List Tree}

/-- What is no parameter is bound in the scope of a call as it is where the call stands. -/
theorem get?_scope (h : ∀ name ∈ command.parameters, called ≠ ⟨name, .nullary⟩) :
    (env.extend (command.parameters.zip trees)).get? called = env.get? called :=
  env.get?_extend_of_not_mem fun _ hargument => h _ (List.of_mem_zip hargument).1

/-- A form that no parameter uses is bound as it was outside the call. -/
theorem get?_scope_of_not_inUse (h : ¬ InUse form command.parameters called) :
    (env.extend (command.parameters.zip trees)).get? called = env.get? called :=
  get?_scope fun name hname hsame => h (.inr ⟨name, hname, hsame⟩)

namespace NoClash

/-- The scope of a call and the environment where it stands cannot be told apart by what does not use
the call. -/
theorem agreesOn (h : env.NoClash form command trees) :
    AgreesOn .standard (¬ InUse form command.parameters ·) env
      (env.extend (command.parameters.zip trees)) := by
  intro called hcalled _
  refine ⟨get?_scope_of_not_inUse hcalled, fun command' hbound => ?_⟩
  exact (h.other (fun hsame => hcalled (.inl hsame)) hbound).1

/-- The scope of a call is related to the environment where it stands. -/
theorem filledIn (h : env.NoClash form command trees) (hdistinct : command.parameters.Nodup)
    (hnames : (command.parameters.zip trees).map Prod.fst = command.parameters) :
    (env.extend (command.parameters.zip trees)).FilledIn form (command.parameters.zip trees) env where
  parameter := env.get?_extend_of_mem (hnames.symm ▸ hdistinct)
  other := by
    intro called hcalled
    rw [hnames] at hcalled ⊢
    rw [get?_scope_of_not_inUse hcalled]
    cases hbound : env.get? called with
    | none => exact .inl ⟨rfl, rfl⟩
    | some command' =>
        obtain ⟨hcalls, hparameters⟩ := h.other (fun hsame => hcalled (.inl hsame)) hbound
        rw [← hnames] at hcalls
        exact .inr ⟨command', command', rfl, rfl, rfl, hparameters, Tree.filledIn_self hcalls⟩

/-- The scopes of two calls of one command cannot be told apart by its body, if they bind alike the
parameters that it calls. -/
theorem agreesOn_body (h : env.NoClash form command trees) (hbound : env.get? form = some command)
    (hdistinct : command.parameters.Nodup)
    (hnames : (command.parameters.zip trees).map Prod.fst = command.parameters) {trees' : List Tree}
    (hnames' : (command.parameters.zip trees').map Prod.fst = command.parameters)
    (hsame : ∀ name, ⟨name, .nullary⟩ ∈ command.body.calls →
      (command.parameters.zip trees').lookup name = (command.parameters.zip trees).lookup name) :
    AgreesOn .standard
      (fun called => ∀ name ∈ command.parameters, called = ⟨name, .nullary⟩ →
        called ∈ command.body.calls)
      (env.extend (command.parameters.zip trees)) (env.extend (command.parameters.zip trees')) := by
  have hunused : ∀ {tree : Tree}, (∀ called ∈ tree.calls, ¬ InUse form command.parameters called) →
      ∀ called ∈ tree.calls, ∀ name ∈ command.parameters, called = ⟨name, .nullary⟩ →
        called ∈ command.body.calls :=
    fun hcalls called hcalled name hname hparameter =>
      absurd (.inr ⟨name, hname, hparameter⟩) (hcalls called hcalled)
  intro called hcalled _
  by_cases hparameter : ∃ name ∈ command.parameters, called = ⟨name, .nullary⟩
  · obtain ⟨name, hname, rfl⟩ := hparameter
    obtain ⟨argument, hargument⟩ := exists_lookup_eq_some (hnames.symm ▸ hname)
    have hargument' := (hsame name (hcalled name hname rfl)).trans hargument
    rw [env.get?_extend_of_mem (hnames.symm ▸ hdistinct) (mem_of_lookup hargument),
      env.get?_extend_of_mem (hnames'.symm ▸ hdistinct) (mem_of_lookup hargument')]
    refine ⟨rfl, ?_⟩
    intro command' hcommand'
    cases hcommand'
    exact hunused (h.argument (List.of_mem_zip (mem_of_lookup hargument)).2)
  · have hother : ∀ name ∈ command.parameters, called ≠ ⟨name, .nullary⟩ :=
      fun name hname hsame => hparameter ⟨name, hname, hsame⟩
    rw [get?_scope hother, get?_scope hother]
    refine ⟨rfl, ?_⟩
    intro command' hcommand'
    by_cases hform : called = form
    · subst hform
      rw [hbound] at hcommand'
      cases hcommand'
      exact fun called hcalled _ _ _ => hcalled
    · exact hunused (h.other hform hcommand').1

end NoClash

end Environment

/-- **A call is its body with the arguments written in.**  Take a call of a command that is not built
in, with as many arguments as the command has parameters, all of them different.  If no names clash,
then whatever the dice,

* the call ends in E206, or it ends in the same value as the body with the arguments written in, or in
  a failure of the same code and message, and with the same draws;
* each reference to a parameter in the scope of the call is one evaluation of the argument, and that
  comes to the same as where the call stands;
* what the arguments are that the body does not refer to makes no difference. -/
theorem call_is_filled_body (env : Environment) (form : Form) (command : Command) (call : Tree)
    (hform : call.form? = some form) (hown : Registry.standard.get? form = none)
    (hbound : env.get? form = some command) (hdistinct : command.parameters.Nodup)
    (hlength : call.children.length = command.parameters.length)
    (hclash : env.NoClash form command call.children) :
    (∀ (σ : Type) [Dice σ] (dice : σ),
      EndsIn "E206" ((evaluate .standard env call).play dice).1 ∨
      Alike ((evaluate .standard env call).play dice)
        ((evaluate .standard env
          (command.body.fill (command.parameters.zip call.children))).play dice)) ∧
    (∀ (name : String) (argument reference : Tree),
      (name, argument) ∈ command.parameters.zip call.children →
      reference.form? = some ⟨name, .nullary⟩ → ∀ budget,
      eval .standard (budget + 1) (env.extend (command.parameters.zip call.children)) reference =
        eval .standard budget env argument) ∧
    ∀ call' : Tree, call'.form? = some form →
      (∀ name, ⟨name, .nullary⟩ ∈ command.body.calls →
        (command.parameters.zip call'.children).lookup name =
          (command.parameters.zip call.children).lookup name) →
      ∀ budget, eval .standard budget env call' = eval .standard budget env call := by
  have hnames : (command.parameters.zip call.children).map Prod.fst = command.parameters :=
    List.map_fst_zip (Nat.le_of_eq hlength.symm)
  refine ⟨?_, ?_, ?_⟩
  · intro σ _ dice
    have hfresh : ∀ argument ∈ command.parameters.zip call.children,
        ∀ called ∈ argument.2.calls,
        ¬ InUse form ((command.parameters.zip call.children).map Prod.fst) called := by
      rw [hnames]
      exact fun argument hargument => hclash.argument (List.of_mem_zip hargument).2
    refine alike_of_follows ?_ dice
    unfold evaluationLimit
    rw [eval_call hform hown hbound hlength]
    exact eval_filledIn hfresh (by omega) (hclash.filledIn hdistinct hnames) ⟨rfl, hclash.body⟩
  · intro name argument reference hargument hreference budget
    have hparameter := env.get?_extend_of_mem (hnames.symm ▸ hdistinct) hargument
    rw [eval_reference hreference hparameter]
    exact (eval_agreesOn budget hclash.agreesOn
      (hclash.argument (List.of_mem_zip hargument).2)).symm
  · intro call' hform' hsame budget
    have hlength' : call'.children.length = command.parameters.length := by
      rw [← hlength, Tree.children_length_of_form? hform, Tree.children_length_of_form? hform']
    have hnames' : (command.parameters.zip call'.children).map Prod.fst = command.parameters :=
      List.map_fst_zip (Nat.le_of_eq hlength'.symm)
    cases budget with
    | zero => rfl
    | succ budget =>
        rw [eval_call hform hown hbound hlength, eval_call hform' hown hbound hlength']
        exact (eval_agreesOn budget
          (hclash.agreesOn_body hbound hdistinct hnames hnames' hsame)
          fun called hcalled _ _ _ => hcalled).symm

/-- The command `twice "x" => x + x()`. -/
def twice : Command :=
  ⟨["x"], .arithmetic .add (.nullary "x" none) (.call "x" [] none) none⟩

/-- An environment with `twice "x" => x + x()` and `half "y" => y / 2`. -/
def twiceEnvironment : Environment :=
  ⟨[(⟨"twice", .prefixed⟩, twice),
    (⟨"half", .prefixed⟩,
      ⟨["y"], .arithmetic .div (.nullary "y" none) (.integer 2 none) none⟩)]⟩

/-- The argument `half (1 D 6)`. -/
def halfRoll : Tree := .prefixed "half" (.infixed "D" (.integer 1 none) (.integer 6 none) none) none

/-- With `half (1 D 6)` for `x`, `twice` rolls two dice, as its body does when that is written in. -/
theorem call_is_filled_body_twice :
    (evaluate .standard twiceEnvironment (.prefixed "twice" halfRoll none)).play
      (Script.ofRolls [some 3, some 4]) = (.ok (.integer 3), ⟨[], [6, 6]⟩) ∧
    Alike (.ok (.integer 3), ⟨[], [6, 6]⟩)
      ((evaluate .standard twiceEnvironment (.arithmetic .add halfRoll halfRoll none)).play
        (Script.ofRolls [some 3, some 4])) := by
  have hothers : twiceEnvironment.All fun form' command' => form' ≠ ⟨"twice", .prefixed⟩ →
      (∀ called ∈ command'.body.calls, ¬ InUse ⟨"twice", .prefixed⟩ twice.parameters called) ∧
      ∀ name ∈ command'.parameters, name ∉ twice.parameters := by
    unfold Environment.All
    decide
  have hclash : twiceEnvironment.NoClash ⟨"twice", .prefixed⟩ twice [halfRoll] := by
    refine ⟨by decide, ?_, fun hother hbound => hothers.get? hbound hother⟩
    intro argument hargument
    obtain rfl := List.mem_singleton.mp hargument
    decide
  obtain ⟨halike, -, -⟩ := call_is_filled_body twiceEnvironment ⟨"twice", .prefixed⟩ twice
    (.prefixed "twice" halfRoll none) rfl rfl rfl (by decide) rfl hclash
  refine ⟨rfl, (halike Script (Script.ofRolls [some 3, some 4])).resolve_left ?_⟩
  rintro ⟨mistake, hmistake, -⟩
  cases hmistake

end DiceLang
