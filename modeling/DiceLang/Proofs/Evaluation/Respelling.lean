import DiceLang.Proofs.Evaluation.Inline

/-!
# Other spellings of calls

A call without arguments says what the name alone says, and a call with two arguments says what an
infix command between them says.  `Tree.respelled` writes a tree in the second way throughout.

How a tree is spelt makes no difference to its evaluation, and its spans matter to nothing but the
places of mistakes.  Both are transformations of trees of one kind: they keep the form that a node
calls and are done to its children one by one.  `Rendering` states what is asked of such a
transformation, and `Rendering.eval` that evaluation does not see it, in environments whose bodies
are transformed as well.  `evaluate_respelled` is the conclusion for two trees, and two environments,
that become the same.
-/

namespace DiceLang

namespace Tree

/-- A call in the spelling of commands: a name alone, if there are no arguments, and an infix command,
if there are two. -/
def commandNode (name : String) (args : List Tree) (span : Option Span) : Tree :=
  match args with
  | [] => nullary name span
  | [lhs, rhs] => infixed name lhs rhs span
  | args => call name args span

mutual

/-- A tree in which every call is in the spelling of commands, if it has one. -/
def respelled : Tree → Tree
  | hole span => hole span
  | integer value span => integer value span
  | arithmetic op lhs rhs span => arithmetic op lhs.respelled rhs.respelled span
  | comparison op lhs rhs span => comparison op lhs.respelled rhs.respelled span
  | nullary name span => nullary name span
  | prefixed name rhs span => prefixed name rhs.respelled span
  | infixed name lhs rhs span => infixed name lhs.respelled rhs.respelled span
  | postfixed name lhs span => postfixed name lhs.respelled span
  | call name args span => commandNode name (respelledAll args) span
  | definition form parameters body span => definition form parameters body.respelled span
  | program definitions span => program (respelledAll definitions) span

/-- Trees in which every call is in the spelling of commands, if it has one. -/
def respelledAll : List Tree → List Tree
  | [] => []
  | tree :: trees => tree.respelled :: respelledAll trees

end

/-- Several trees are respelled one by one. -/
theorem respelledAll_eq_map (trees : List Tree) : respelledAll trees = trees.map respelled := by
  induction trees with
  | nil => rfl
  | cons tree trees ih => simp [respelledAll, ih]

section CommandNode

variable (name : String) (args : List Tree) (span : Option Span)

/-- A command has the span that it is given, whichever node it is. -/
theorem span?_commandNode : (commandNode name args span).span? = span := by
  unfold commandNode
  split <;> rfl

theorem children_commandNode : (commandNode name args span).children = args := by
  unfold commandNode
  split <;> rfl

/-- A call has its form in either spelling. -/
theorem form?_commandNode : (commandNode name args span).form? = (call name args span).form? := by
  unfold commandNode
  split <;> rfl

/-- A call without a form has one spelling only. -/
theorem commandNode_of_form? (h : (call name args span).form? = none) :
    commandNode name args span = call name args span := by
  unfold commandNode
  split
  · cases h
  · cases h
  · rfl

end CommandNode

/-- Respelling leaves spans alone. -/
theorem span?_respelled (tree : Tree) : tree.respelled.span? = tree.span? := by
  cases tree with
  | call name args span =>
      rw [respelled, span?_commandNode]
      rfl
  | _ => simp only [respelled, span?]

/-- The children of a node are respelled with it. -/
theorem children_respelled (tree : Tree) :
    tree.respelled.children = tree.children.map respelled := by
  cases tree with
  | call name args span => rw [respelled, children_commandNode, respelledAll_eq_map, children]
  | _ => simp [respelled, children, respelledAll_eq_map]

/-- A command is respelled as one of the same form. -/
theorem form?_respelled (tree : Tree) : tree.respelled.form? = tree.form? := by
  cases tree with
  | call name args span =>
      rw [respelled, form?_commandNode, respelledAll_eq_map]
      simp only [form?, List.length_map]
  | _ => simp only [respelled, form?]

end Tree

/-- What becomes of a command when its body is transformed. -/
def Command.render (f : Tree → Tree) (command : Command) : Command :=
  { command with body := f command.body }

namespace Environment

/-- An environment with all bodies transformed. -/
def render (f : Tree → Tree) (env : Environment) : Environment :=
  ⟨env.bindings.map fun binding => (binding.1, binding.2.render f)⟩

/-- The second environment binds what the first one binds, with bodies transformed. -/
def Renders (f : Tree → Tree) (env env' : Environment) : Prop :=
  ∀ form, env'.get? form = (env.get? form).map (Command.render f)

variable {f : Tree → Tree} {env env' : Environment}

/-- An environment is rendered by rendering all commands in it. -/
theorem renders_render (f : Tree → Tree) (env : Environment) : env.Renders f (env.render f) := by
  intro form
  unfold get? render
  induction env.bindings with
  | nil => rfl
  | cons binding bindings ih =>
      rw [List.map_cons, List.lookup_cons, List.lookup_cons]
      cases form == binding.1 with
      | true => rfl
      | false => exact ih

/-- A command may be added on both sides, rendered on one of them. -/
theorem Renders.insert (h : env.Renders f env') (form : Form) (command : Command) :
    (env.insert form command).Renders f (env'.insert form (command.render f)) := by
  intro other
  rw [get?_insert, get?_insert]
  split
  · rfl
  · exact h other

/-- The scopes of two calls are transformed, if the environments and the arguments are. -/
theorem Renders.extend (h : env.Renders f env') (names : List String) {trees trees' : List Tree}
    (htrees : List.Forall₂ (fun tree tree' => tree' = f tree) trees trees') :
    (env.extend (names.zip trees)).Renders f (env'.extend (names.zip trees')) := by
  induction htrees generalizing names env env' with
  | nil =>
      rw [List.zip_nil_right]
      exact h
  | @cons tree _ _ _ htree _ ih =>
      cases names with
      | nil => exact h
      | cons name names =>
          subst htree
          exact ih (h.insert ⟨name, .nullary⟩ ⟨[], tree⟩) names

end Environment

/-- A transformation of trees that keeps the form a node calls and goes on below it, and that shows in
failures only so far as `view` does not hide it. -/
structure Rendering (f : Tree → Tree) (view : Failure → Failure) : Prop where
  form? (tree : Tree) : (f tree).form? = tree.form?
  children (tree : Tree) : (f tree).children = tree.children.map f
  /-- A node that calls nothing stays what it is. -/
  parallel {tree : Tree} : tree.form? = none →
    Tree.Parallel (fun child child' => child' = f child) tree (f tree)
  mistake (tree : Tree) (cause : Cause) :
    view (.ofCause cause (f tree).span?) = view (.ofCause cause tree.span?)
  orAt (tree : Tree) (failure : Failure) :
    view (failure.orAt (f tree).span?) = view (failure.orAt tree.span?)

namespace Rendering

variable {f : Tree → Tree} {view : Failure → Failure}

/-- Evaluations of trees and of what becomes of them, compared by what `view` shows of failures. -/
def simulation (h : Rendering f view) (registry : Registry) : Simulation where
  Rel m m' := ExceptT.adapt view m' = ExceptT.adapt view m
  Env := Environment.Renders f
  Match tree tree' := tree' = f tree
  Spans span span' := ∀ cause, view (.ofCause cause span') = view (.ofCause cause span)
  left := registry
  right := registry
  pure a := rfl
  bind := by
    intro α β m m' k k' hm hk
    rw [adapt_bind, adapt_bind, hm]
    exact bind_congr hk
  span := by
    rintro tree _ rfl
    exact h.mistake tree
  mistake := by
    intro α env env' tree tree' cause span span' _ _ _ hspan
    rw [adapt_throw, adapt_throw, hspan cause]
  stuck _ _ := rfl
  builtin := by
    rintro tree _ form rfl _
    cases hbuiltin : registry.get? form with
    | none => exact .inl ⟨rfl, rfl⟩
    | some command =>
        refine .inr ⟨command, command, rfl, rfl, rfl, rfl, fun operands => ?_⟩
        rw [adapt_adapt, adapt_adapt]
        simp only [h.orAt]
  lookup := by
    intro env env' tree tree' form henv _ hchildren _ _ _
    cases hbound : env.get? form with
    | none =>
        refine .inl ⟨rfl, ?_⟩
        rw [henv form, hbound, Option.map_none]
    | some command =>
        refine .inr (.inr ⟨command, command.render f, rfl, ?_, rfl, rfl,
          henv.extend command.parameters hchildren⟩)
        rw [henv form, hbound, Option.map_some]

/-- **Evaluation does not see the transformation**, if it is done to all bodies as well. -/
theorem eval (h : Rendering f view) (registry : Registry) (budget : Nat) {env env' : Environment}
    (henv : env.Renders f env') (tree : Tree) :
    (ExceptT.adapt view (eval registry budget env' (f tree)) : Eval Value) =
      ExceptT.adapt view (eval registry budget env tree) := by
  induction budget generalizing env env' tree with
  | zero => rfl
  | succ budget ih =>
      rw [eval_succ, eval_succ]
      have hbelow : ∀ env env', Environment.Renders f env env' → ∀ tree tree', tree' = f tree →
          (ExceptT.adapt view (DiceLang.eval registry budget env' tree') : Eval Value) =
            ExceptT.adapt view (DiceLang.eval registry budget env tree) := by
        rintro env env' henv tree _ rfl
        exact ih henv tree
      have hself : (h.simulation registry).Match tree (f tree) := rfl
      cases hform : tree.form? with
      | none => exact (h.simulation registry).node hbelow henv hself (h.parallel hform)
      | some form =>
          have hchildren : List.Forall₂ (fun child child' => child' = f child)
              tree.children (f tree).children := by
            rw [h.children]
            exact List.forall₂_map_right_iff.mpr (List.forall₂_same.mpr fun _ _ => rfl)
          have hform' : (f tree).form? = some form := (h.form? tree).trans hform
          have hcall := (h.simulation registry).invoke hbelow henv hself hchildren hform hform'
          unfold evalNode
          rw [hform, hform']
          exact hcall

end Rendering

/-- Spelling does not show at all. -/
theorem rendering_respelled : Rendering Tree.respelled id where
  form? := Tree.form?_respelled
  children := Tree.children_respelled
  parallel := by
    intro tree hform
    cases tree with
    | hole | integer | arithmetic | comparison | definition =>
        rw [Tree.respelled]
        constructor <;> rfl
    | call name args span =>
        have hargs : (Tree.call name (args.map Tree.respelled) span).form? = none := by
          simpa only [Tree.form?, List.length_map] using hform
        rw [Tree.respelled, Tree.respelledAll_eq_map, Tree.commandNode_of_form? _ _ _ hargs]
        exact .call name span span
          (List.forall₂_map_right_iff.mpr (List.forall₂_same.mpr fun _ _ => rfl))
    | program definitions span =>
        rw [Tree.respelled, Tree.respelledAll_eq_map]
        exact .program span span
          (List.forall₂_map_right_iff.mpr (List.forall₂_same.mpr fun _ _ => rfl))
    | nullary | prefixed | infixed | postfixed => cases hform
  mistake tree cause := by rw [Tree.span?_respelled]
  orAt tree failure := by rw [Tree.span?_respelled]

/-- Spans show in the places of mistakes only. -/
theorem rendering_erase : Rendering Tree.erase Failure.unplaced where
  form? tree := by
    cases tree <;> simp [Tree.erase, Tree.form?, Tree.eraseAll_eq_map]
  children := Tree.children_erase
  parallel := by
    intro tree hform
    cases tree with
    | hole | integer | arithmetic | comparison | definition =>
        rw [Tree.erase]
        constructor <;> rfl
    | call name children span | program children span =>
        rw [Tree.erase, Tree.eraseAll_eq_map]
        constructor
        exact List.forall₂_map_right_iff.mpr (List.forall₂_same.mpr fun _ _ => rfl)
    | nullary | prefixed | infixed | postfixed => cases hform
  mistake tree cause := rfl
  orAt tree failure := by rw [Failure.unplaced_orAt, Failure.unplaced_orAt]

/-- Two environments bind the same forms, with the same parameters, to bodies of which `view` shows
the same. -/
def Environment.SameTo (view : Tree → Tree) (env env' : Environment) : Prop :=
  ∀ form, (env'.get? form).map (Command.render view) = (env.get? form).map (Command.render view)

section Respelled

variable {registry : Registry} {env env' : Environment} {tree tree' : Tree}

theorem adapt_id {α : Type} (m : Eval α) : ExceptT.adapt id m = m := by
  apply ExceptT.ext
  rw [ExceptT.run_adapt]
  refine (congrArg (· <$> m.run) (funext fun outcome => ?_)).trans (id_map _)
  cases outcome <;> rfl

/-- A tree is evaluated like what it becomes when it is respelt, if bodies are respelt as well. -/
theorem eval_respelled (budget : Nat) (henv : env.Renders Tree.respelled env') (tree : Tree) :
    eval registry budget env' tree.respelled = eval registry budget env tree := by
  have heval := rendering_respelled.eval registry budget henv tree
  rwa [adapt_id, adapt_id] at heval

/-- Trees that are respelt alike, spans included, are evaluated alike. -/
theorem eval_eq_of_respelled (budget : Nat) (henv : env.SameTo Tree.respelled env')
    (htree : tree'.respelled = tree.respelled) :
    eval registry budget env' tree' = eval registry budget env tree := by
  have hleft := env.renders_render Tree.respelled
  have hright : env'.Renders Tree.respelled (env.render Tree.respelled) :=
    fun form => (hleft form).trans (henv form).symm
  rw [← eval_respelled budget hleft tree, ← eval_respelled budget hright tree', htree]

/-- Trees that are respelt alike, apart from spans, are evaluated alike, apart from places. -/
theorem eval_unplaced_of_respelled (budget : Nat)
    (henv : env.SameTo (fun tree => tree.respelled.erase) env')
    (htree : tree'.respelled.erase = tree.respelled.erase) :
    (ExceptT.adapt Failure.unplaced (eval registry budget env' tree') : Eval Value) =
      ExceptT.adapt Failure.unplaced (eval registry budget env tree) := by
  have hspelling := env.renders_render Tree.respelled
  have hspelling' := env'.renders_render Tree.respelled
  have hleft := (env.render Tree.respelled).renders_render Tree.erase
  have hright : (env'.render Tree.respelled).Renders Tree.erase
      ((env.render Tree.respelled).render Tree.erase) := by
    intro form
    rw [hleft, hspelling, hspelling', Option.map_map, Option.map_map]
    exact (henv form).symm
  rw [← eval_respelled budget hspelling tree, ← eval_respelled budget hspelling' tree',
    ← rendering_erase.eval registry budget hleft, ← rendering_erase.eval registry budget hright, htree]

/-- Computations that are one apart from places are played alike. -/
theorem alike_of_unplaced {α σ : Type} [Dice σ] {m m' : Eval α} {dice : σ}
    (h : (ExceptT.adapt Failure.unplaced m' : Eval α) = ExceptT.adapt Failure.unplaced m) :
    Alike (m.play dice) (m'.play dice) := by
  have hplay := congrArg (Eval.play · dice) h
  simp only [Eval.play_adapt Failure.unplaced (fun _ => rfl)] at hplay
  exact Prod.mk.inj hplay

end Respelled

/-- **Spelling and spans.**  Take two expressions that become equal when every call is written in the
spelling of commands and all spans are dropped, and two environments that bind the same forms, with
the same parameters, to bodies that become equal in the same way.  Whatever the built-in commands and
the dice, the expressions end in the same value with the same draws, or in failures of the same code
and message.  If spans need not be dropped for that, then failures have the same spans as well. -/
theorem evaluate_respelled (registry : Registry) (env env' : Environment) (tree tree' : Tree)
    {σ : Type} [Dice σ] (dice : σ) :
    (env.SameTo (fun tree => tree.respelled.erase) env' →
      tree'.respelled.erase = tree.respelled.erase →
      Alike ((evaluate registry env tree).play dice) ((evaluate registry env' tree').play dice)) ∧
    (env.SameTo Tree.respelled env' → tree'.respelled = tree.respelled →
      (evaluate registry env' tree').play dice = (evaluate registry env tree).play dice) := by
  constructor
  · intro henv htree
    apply alike_of_unplaced
    unfold evaluate
    rw [adapt_unplaced_evaluateWithin, adapt_unplaced_evaluateWithin,
      eval_unplaced_of_respelled evaluationLimit henv htree]
  · intro henv htree
    have hspan : tree'.span? = tree.span? := by
      rw [← Tree.span?_respelled tree', htree, Tree.span?_respelled]
    unfold evaluate evaluateWithin
    rw [eval_eq_of_respelled evaluationLimit henv htree, hspan]

/-- The span of the first two characters of a text. -/
def firstTwo : Span := ⟨.origin, ⟨1, 3, 2⟩⟩

/-- An environment with `f "x" => D(x(), 6)`, where `rollingEnvironment` has `f "x" => x D 6`. -/
def callingEnvironment : Environment :=
  ⟨[(⟨"f", .prefixed⟩, ⟨["x"], .call "D" [.call "x" [] none, .integer 6 none] firstTwo⟩)]⟩

/-- The two environments differ in how the body of a command is spelt. -/
theorem callingEnvironment_sameTo :
    rollingEnvironment.SameTo (fun tree => tree.respelled.erase) callingEnvironment := by
  intro form
  by_cases hform : form = ⟨"f", .prefixed⟩
  · subst hform
    rfl
  · have hdiffer : (form == ⟨"f", .prefixed⟩) = false := beq_false_of_ne hform
    simp [Environment.get?, rollingEnvironment, callingEnvironment, List.lookup_cons, hdiffer]

/-- The two spellings of `f` roll the same dice for `f 2`, and `g()` is refused where `g` is. -/
theorem evaluate_respelled_rolling :
    Alike (.ok (.integer 7), ⟨[], [6, 6]⟩)
      ((evaluate .standard callingEnvironment (.prefixed "f" (.integer 2 none) firstTwo)).play
        (Script.ofRolls [some 3, some 4])) ∧
    (evaluate .standard .empty (.call "g" [] firstTwo)).play (Script.ofRolls []) =
      (.error (.ofCause (.unknownForm ⟨"g", .nullary⟩) firstTwo), Script.ofRolls []) :=
  ⟨(evaluate_respelled .standard rollingEnvironment callingEnvironment
      (.prefixed "f" (.integer 2 none) none) (.prefixed "f" (.integer 2 none) firstTwo)
      (Script.ofRolls [some 3, some 4])).1 callingEnvironment_sameTo rfl,
    (evaluate_respelled .standard .empty .empty (.nullary "g" firstTwo) (.call "g" [] firstTwo)
      (Script.ofRolls [])).2 (fun _ => rfl) rfl⟩

end DiceLang
