import DiceLang.Dice.Script
import DiceLang.Proofs.Evaluation.Widening

/-!
# What an argument means

A call binds its arguments to the parameters as they stand, and a parameter that is referred to has
its argument evaluated right there, in the scope of the callee.  So an argument need not mean what
it means to the caller: `argument_captured` shows one that refers to another parameter of the same
call.

It does mean the same as long as its evaluation asks the caller for none of the parameters.  The
caller `without` the parameters is narrower than the caller and narrower than the scope of the
callee, which is how `parameter_means_argument` says this.
-/

namespace DiceLang

namespace Environment

/-- The environment in which the given names are not bound as nullary commands. -/
def without (env : Environment) (names : List String) : Environment :=
  ⟨env.bindings.filter fun binding => ¬ (binding.1.shape = .nullary ∧ binding.1.name ∈ names)⟩

section Lookups

variable (env : Environment) (names : List String) {arguments : List (String × Tree)}

/-- What has been taken away is not bound, and all else is bound as before. -/
theorem get?_without (form : Form) :
    (env.without names).get? form =
      if form.shape = .nullary ∧ form.name ∈ names then none else env.get? form := by
  unfold get? without
  induction env.bindings with
  | nil => simp
  | cons binding rest ih =>
      obtain ⟨bound, command⟩ := binding
      simp only [decide_not] at ih ⊢
      by_cases hbound : form = bound
      · subst hbound
        by_cases hnamed : form.shape = .nullary ∧ form.name ∈ names
        · rw [List.filter_cons_of_neg (by simp [hnamed]), ih, if_pos hnamed, if_pos hnamed]
        · rw [List.filter_cons_of_pos (by simp [hnamed]), if_neg hnamed,
            List.lookup_cons_self, List.lookup_cons_self]
      · have hdiffer : (form == bound) = false := beq_false_of_ne hbound
        rw [List.lookup_cons, hdiffer, List.filter_cons]
        split
        · rw [List.lookup_cons, hdiffer]
          exact ih
        · exact ih

/-- What is not among the names of an extension is bound as before. -/
theorem get?_extend_of_not_mem {form : Form}
    (hform : ∀ argument ∈ arguments, form ≠ ⟨argument.1, .nullary⟩) :
    (env.extend arguments).get? form = env.get? form := by
  induction arguments generalizing env with
  | nil => rfl
  | cons argument arguments ih =>
      obtain ⟨hfirst, hothers⟩ := List.forall_mem_cons.mp hform
      have hrest := ih (env.insert ⟨argument.1, .nullary⟩ ⟨[], argument.2⟩) hothers
      rw [get?_insert, if_neg hfirst] at hrest
      exact hrest

/-- Each of several names that differ is bound to its own expression. -/
theorem get?_extend_of_mem {name : String} {argument : Tree}
    (hdistinct : (arguments.map Prod.fst).Nodup) (hmem : (name, argument) ∈ arguments) :
    (env.extend arguments).get? ⟨name, .nullary⟩ = some ⟨[], argument⟩ := by
  induction arguments generalizing env with
  | nil => cases hmem
  | cons first arguments ih =>
      obtain ⟨hnew, hdistinct⟩ := List.nodup_cons.mp hdistinct
      rcases List.mem_cons.mp hmem with rfl | hmem
      · have hlater : ∀ later ∈ arguments, (⟨name, .nullary⟩ : Form) ≠ ⟨later.1, .nullary⟩ := by
          rintro ⟨later, tree⟩ hlater hsame
          cases hsame
          exact hnew (List.mem_map.mpr ⟨_, hlater, rfl⟩)
        have hkept := (env.insert ⟨name, .nullary⟩ ⟨[], argument⟩).get?_extend_of_not_mem hlater
        rw [get?_insert, if_pos rfl] at hkept
        exact hkept
      · exact ih _ hdistinct hmem

end Lookups

/-- The failures that come of leaving names out: calls that do not find them, and evaluations that
are nested too deeply for the budget. -/
def Missing (names : List String) (failure : Failure) : Prop :=
  failure = .tooDeep ∨ ∃ name ∈ names, ∃ span,
    failure = .ofCause (.unknownForm ⟨name, .nullary⟩) span

section Widening

variable (env : Environment) (names : List String)

/-- An environment that is like another one but for some names widens that one without the names. -/
theorem without_widens {wider : Environment}
    (hwider : ∀ form, ¬ (form.shape = .nullary ∧ form.name ∈ names) →
      wider.get? form = env.get? form) :
    (env.without names).Widens (Missing names) wider := by
  rintro ⟨name, shape⟩
  rw [get?_without]
  by_cases hnamed : shape = .nullary ∧ name ∈ names
  · obtain ⟨rfl, hname⟩ := hnamed
    right
    exact ⟨if_pos ⟨rfl, hname⟩, fun span => .inr ⟨name, hname, span, rfl⟩⟩
  · rw [if_neg hnamed]
    exact .inl (hwider _ hnamed)

/-- The names may be put back. -/
theorem without_widens_self : (env.without names).Widens (Missing names) env :=
  env.without_widens names fun _ _ => rfl

/-- They may be bound to arguments as well. -/
theorem without_widens_extend (arguments : List Tree) :
    (env.without names).Widens (Missing names) (env.extend (names.zip arguments)) := by
  refine env.without_widens names fun form hform => ?_
  refine env.get?_extend_of_not_mem ?_
  rintro ⟨name, argument⟩ hmem rfl
  exact hform ⟨rfl, (List.of_mem_zip hmem).1⟩

end Widening

end Environment

/-- No nullary command is built in. -/
theorem Registry.get?_standard_nullary (name : String) :
    Registry.standard.get? ⟨name, .nullary⟩ = none := by
  simp [Registry.get?, Registry.standard, Builtin.dice]

/-- A value that is come to within a budget up to the limit is what `evaluate` comes to. -/
theorem evaluate_play_eq_ok {registry : Registry} {env : Environment} {tree : Tree} {budget : Nat}
    (hbudget : budget ≤ evaluationLimit) {σ : Type} [Dice σ] {dice after : σ} {value : Value}
    (h : (eval registry budget env tree).play dice = (.ok value, after)) :
    (evaluate registry env tree).play dice = (.ok value, after) := by
  have hsame : env.Widens (fun _ => True) env := fun _ => .inl rfl
  have hplay := (eval_follows registry trivial hbudget hsame tree).play_eq_ok h
  unfold evaluate evaluateWithin
  rw [Eval.play_adapt _ (fun _ => rfl), hplay]
  rfl

/-- Referring to a parameter is evaluating its argument in the scope of the callee. -/
theorem eval_parameter (env : Environment) {names : List String} {arguments : List Tree}
    (hlength : names.length = arguments.length) (hdistinct : names.Nodup)
    {name : String} {argument : Tree} (hmem : (name, argument) ∈ names.zip arguments)
    (span : Option Span) (budget : Nat) :
    eval .standard (budget + 1) (env.extend (names.zip arguments)) (.nullary name span) =
      eval .standard budget (env.extend (names.zip arguments)) argument := by
  have hnames : (names.zip arguments).map Prod.fst = names :=
    List.map_fst_zip (Nat.le_of_eq hlength)
  have hbound := env.get?_extend_of_mem (hnames.symm ▸ hdistinct) hmem
  show invoke .standard _ _ ⟨name, .nullary⟩ [] span = _
  unfold invoke
  rw [Registry.get?_standard_nullary, hbound]
  rfl

/-- **What an argument means.**  Where distinct parameters are bound to arguments, referring to a
parameter is evaluating its argument in that scope, one step deeper.  If evaluating the argument
comes to a value without asking the caller for any of the parameters, then that is its value for the
caller and the value of the parameter in the scope of the callee, with the same draws. -/
theorem parameter_means_argument (env : Environment) (names : List String) (arguments : List Tree)
    (hlength : names.length = arguments.length) (hdistinct : names.Nodup)
    (name : String) (argument : Tree) (hmem : (name, argument) ∈ names.zip arguments)
    (span : Option Span) :
    (∀ budget, eval .standard (budget + 1) (env.extend (names.zip arguments)) (.nullary name span) =
      eval .standard budget (env.extend (names.zip arguments)) argument) ∧
    ∀ budget, budget < evaluationLimit → ∀ (σ : Type) [Dice σ] (dice after : σ) (value : Value),
      (eval .standard budget (env.without names) argument).play dice = (.ok value, after) →
        (evaluate .standard env argument).play dice = (.ok value, after) ∧
        (evaluate .standard (env.extend (names.zip arguments)) (.nullary name span)).play dice =
          (.ok value, after) := by
  have hparameter := eval_parameter env hlength hdistinct hmem span
  refine ⟨hparameter, ?_⟩
  intro budget hbudget σ _ dice after value h
  have hcaller := eval_follows .standard (.inl rfl) (Nat.le_refl budget)
    (env.without_widens_self names) argument
  have hscope := eval_follows .standard (.inl rfl) (Nat.le_refl budget)
    (env.without_widens_extend names arguments) argument
  constructor
  · exact evaluate_play_eq_ok (Nat.le_of_lt hbudget) (hcaller.play_eq_ok h)
  · have hplay := hscope.play_eq_ok h
    rw [← hparameter budget] at hplay
    exact evaluate_play_eq_ok hbudget hplay

/-- An environment with `x => 100` and `f "x" => x + 1`. -/
def successorEnvironment : Environment :=
  ⟨[(⟨"x", .nullary⟩, ⟨[], .integer 100 none⟩),
    (⟨"f", .prefixed⟩,
      ⟨["x"], .arithmetic .add (.nullary "x" none) (.integer 1 none) none⟩)]⟩

/-- In the scope of a call with `2` for `x` and `f(3)` for `y`, the latter is still `4`: `f` asks for
its own `x` only. -/
theorem parameter_means_successor :
    (evaluate .standard (successorEnvironment.extend
        [("x", .integer 2 none), ("y", .prefixed "f" (.integer 3 none) none)])
      (.nullary "y" none)).play (Script.ofRolls []) = (.ok (.integer 4), Script.ofRolls []) := by
  have hmeans := parameter_means_argument successorEnvironment ["x", "y"]
    [.integer 2 none, .prefixed "f" (.integer 3 none) none] rfl (by decide) "y"
    (.prefixed "f" (.integer 3 none) none) (by simp) none
  exact (hmeans.2 4 (by decide) Script (Script.ofRolls []) (Script.ofRolls []) (.integer 4) rfl).2

/-- **Capture.**  An argument need not mean what it means to the caller: with `x => 5`, the argument
`x` for `y` is `5` to the caller, but `1` to a callee whose other parameter `x` is bound to `1`. -/
theorem argument_captured :
    ¬ ∀ (env : Environment) (names : List String) (arguments : List Tree),
      names.length = arguments.length → names.Nodup →
      ∀ (name : String) (argument : Tree), (name, argument) ∈ names.zip arguments →
      ∀ (budget : Nat) (value : Value), budget < 50 →
        eval .standard budget env argument = pure value →
        evaluate .standard (env.extend (names.zip arguments)) (.nullary name none) =
          pure value := by
  intro h
  have hfive := h (Environment.empty.extend [("x", .integer 5 none)]) ["x", "y"]
    [.integer 1 none, .nullary "x" none] rfl (by decide) "y" (.nullary "x" none) (by simp)
    2 (.integer 5) (by decide) rfl
  have hone : evaluate .standard ((Environment.empty.extend [("x", .integer 5 none)]).extend
      [("x", .integer 1 none), ("y", .nullary "x" none)]) (.nullary "y" none) =
      pure (.integer 1) := rfl
  have hsame : (pure (.integer 1) : Eval Value) = pure (.integer 5) := hone.symm.trans hfive
  cases hsame

end DiceLang
