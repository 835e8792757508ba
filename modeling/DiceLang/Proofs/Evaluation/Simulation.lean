import DiceLang.Proofs.Evaluation.Node
import DiceLang.Proofs.Tree.Expression
import Mathlib.Data.List.Forall2

/-!
# Simulation of one evaluation by another

Two evaluations of expressions that need not be the same, in environments that need not be the same
either, are compared one node at a time.  `Tree.Parallel` says that two nodes differ at most in their
spans and in what is below them.  A `Simulation` is a relation between computations that sequences
keep, a relation between trees, and a relation between environments that calls keep.

`Simulation.node` says that parallel nodes are then related if whatever they evaluate is; it is the
only place where the constructs of the language are gone through.
-/

namespace DiceLang

/-- Two nodes agree in all but their spans, and what is below them is matched. -/
inductive Tree.Parallel (Match : Tree → Tree → Prop) : Tree → Tree → Prop
  | hole (span span' : Option Span) : Parallel Match (.hole span) (.hole span')
  | integer (n : Int) (span span' : Option Span) :
      Parallel Match (.integer n span) (.integer n span')
  | arithmetic (op : Arithmetic) {lhs lhs' rhs rhs' : Tree} (span span' : Option Span)
      (hlhs : Match lhs lhs') (hrhs : Match rhs rhs') :
      Parallel Match (.arithmetic op lhs rhs span) (.arithmetic op lhs' rhs' span')
  | comparison (op : Comparison) {lhs lhs' rhs rhs' : Tree} (span span' : Option Span)
      (hlhs : Match lhs lhs') (hrhs : Match rhs rhs') :
      Parallel Match (.comparison op lhs rhs span) (.comparison op lhs' rhs' span')
  | nullary (name : String) (span span' : Option Span) :
      Parallel Match (.nullary name span) (.nullary name span')
  | prefixed (name : String) {rhs rhs' : Tree} (span span' : Option Span) (hrhs : Match rhs rhs') :
      Parallel Match (.prefixed name rhs span) (.prefixed name rhs' span')
  | infixed (name : String) {lhs lhs' rhs rhs' : Tree} (span span' : Option Span)
      (hlhs : Match lhs lhs') (hrhs : Match rhs rhs') :
      Parallel Match (.infixed name lhs rhs span) (.infixed name lhs' rhs' span')
  | postfixed (name : String) {lhs lhs' : Tree} (span span' : Option Span) (hlhs : Match lhs lhs') :
      Parallel Match (.postfixed name lhs span) (.postfixed name lhs' span')
  | call (name : String) {args args' : List Tree} (span span' : Option Span)
      (hargs : List.Forall₂ Match args args') :
      Parallel Match (.call name args span) (.call name args' span')
  | definition (form : Form) (parameters : List String) {body body' : Tree}
      (span span' : Option Span) (hbody : Match body body') :
      Parallel Match (.definition form parameters body span)
        (.definition form parameters body' span')
  | program {definitions definitions' : List Tree} (span span' : Option Span)
      (hdefinitions : List.Forall₂ Match definitions definitions') :
      Parallel Match (.program definitions span) (.program definitions' span')

namespace Tree.Parallel

variable {Match : Tree → Tree → Prop} {tree tree' : Tree}

/-- What is below parallel nodes is matched, one by one. -/
theorem children (h : Parallel Match tree tree') :
    List.Forall₂ Match tree.children tree'.children := by
  cases h with
  | hole | integer | nullary => exact .nil
  | arithmetic _ _ _ hlhs hrhs | comparison _ _ _ hlhs hrhs | infixed _ _ _ hlhs hrhs =>
      exact .cons hlhs (.cons hrhs .nil)
  | prefixed _ _ _ hchild | postfixed _ _ _ hchild | definition _ _ _ _ hchild =>
      exact .cons hchild .nil
  | call _ _ _ hchildren | program _ _ hchildren => exact hchildren

/-- Parallel nodes call the same form. -/
theorem form? (h : Parallel Match tree tree') : tree'.form? = tree.form? := by
  cases h with
  | call name _ _ hargs => simp only [Tree.form?, hargs.length_eq]
  | _ => rfl

/-- A node is parallel to itself, if what is below it is matched with itself. -/
theorem refl (h : ∀ child ∈ tree.children, Match child child) : Parallel Match tree tree := by
  cases tree with
  | hole | integer | nullary => constructor
  | arithmetic op lhs rhs span | comparison op lhs rhs span | infixed name lhs rhs span =>
      have hlhs : Match lhs lhs := h lhs (by simp [Tree.children])
      have hrhs : Match rhs rhs := h rhs (by simp [Tree.children])
      constructor <;> assumption
  | prefixed name child span | postfixed name child span | definition form parameters child span =>
      have hchild : Match child child := h child (by simp [Tree.children])
      constructor
      exact hchild
  | call name children span | program children span =>
      constructor
      exact List.forall₂_same.mpr h

end Tree.Parallel

/-- A way of comparing evaluations of two trees in two environments. -/
structure Simulation where
  /-- When two computations are related. -/
  Rel {α : Type} : Eval α → Eval α → Prop
  /-- When two environments are related. -/
  Env : Environment → Environment → Prop
  /-- When two trees are compared. -/
  Match : Tree → Tree → Prop
  /-- When two spans stand for one another. -/
  Spans : Option Span → Option Span → Prop
  /-- The registry of the first evaluation. -/
  left : Registry
  /-- The registry of the second evaluation. -/
  right : Registry
  pure {α : Type} (a : α) : Rel (pure a) (pure a)
  bind {α β : Type} {m m' : Eval α} {f f' : α → Eval β} :
    Rel m m' → (∀ a, Rel (f a) (f' a)) → Rel (m >>= f) (m' >>= f')
  span {tree tree' : Tree} : Match tree tree' → Spans tree.span? tree'.span?
  /-- The mistakes of a node that is compared are related to those of its counterpart. -/
  mistake {α : Type} {env env' : Environment} {tree tree' : Tree} {cause : Cause}
    {span span' : Option Span} : Env env env' → Match tree tree' →
    Mistaken left env tree cause span → Spans span span' →
    Rel (throw (.ofCause cause span) : Eval α) (throw (.ofCause cause span'))
  /-- Trees that cannot be evaluated fail alike, if they are compared at all. -/
  stuck {tree tree' : Tree} : Match tree tree' → tree.isExpression = false →
    Rel (throw (.notExpression tree.nodeName) : Eval Value) (throw (.notExpression tree.nodeName))
  /-- A built-in command that is called corresponds to one of the same form and arity. -/
  builtin {tree tree' : Tree} {form : Form} : Match tree tree' → tree.form? = some form →
    (left.get? form = none ∧ right.get? form = none) ∨
    ∃ command command', left.get? form = some command ∧ right.get? form = some command' ∧
      command'.form = command.form ∧ command'.arity = command.arity ∧ ∀ operands : List Int,
        Rel (ExceptT.adapt (Failure.orAt tree.span?) (command.action operands) : Eval Int)
          (ExceptT.adapt (Failure.orAt tree'.span?) (command'.action operands))
  /-- A form that is called on both sides, and not built in, is bound on neither side, or its absence
  is related to anything, or it is bound to commands that correspond and whose scopes are related. -/
  lookup {env env' : Environment} {tree tree' : Tree} {form : Form} : Env env env' →
    Match tree tree' → List.Forall₂ Match tree.children tree'.children →
    tree.form? = some form → tree'.form? = some form → left.get? form = none →
    (env.get? form = none ∧ env'.get? form = none) ∨
    (env.get? form = none ∧
      ∀ m : Eval Value, Rel (throw (.ofCause (.unknownForm form) tree.span?)) m) ∨
    ∃ command command', env.get? form = some command ∧ env'.get? form = some command' ∧
      command'.parameters = command.parameters ∧ Match command.body command'.body ∧
      Env (env.extend (command.parameters.zip tree.children))
        (env'.extend (command.parameters.zip tree'.children))

namespace Simulation

variable (S : Simulation) {run run' : Tree → Eval Value}
  {evalIn evalIn' : Environment → Tree → Eval Value} {env env' : Environment} {tree tree' : Tree}

/-- Operands that are related are so as integers. -/
theorem evalInteger (henv : S.Env env env') (hmatch : S.Match tree tree')
    (hwants : tree.wantsIntegers S.left = true) {operand operand' : Tree}
    (hoperand : operand ∈ tree.children) (hsame : S.Match operand operand')
    (h : S.Rel (run operand) (run' operand')) :
    S.Rel (evalInteger run operand) (evalInteger run' operand') := by
  refine S.bind h fun value => ?_
  cases value with
  | integer n => exact S.pure n
  | boolean b => exact S.mistake henv hmatch (.notInteger hwants hoperand) (S.span hsame)

theorem evalIntegers (henv : S.Env env env') (hmatch : S.Match tree tree')
    (hwants : tree.wantsIntegers S.left = true) {operands operands' : List Tree}
    (hoperands : List.Forall₂ (fun operand operand' => operand ∈ tree.children ∧
      S.Match operand operand' ∧ S.Rel (run operand) (run' operand')) operands operands') :
    S.Rel (evalIntegers run operands) (evalIntegers run' operands') := by
  induction hoperands with
  | nil => exact S.pure _
  | cons hfirst _ ih =>
      obtain ⟨hoperand, hsame, hrun⟩ := hfirst
      refine S.bind (S.evalInteger henv hmatch hwants hoperand hsame hrun) fun n => ?_
      exact S.bind ih fun ns => S.pure _

/-- Arithmetic gives the same on both sides, at spans that are related. -/
theorem apply (henv : S.Env env env') {op : Arithmetic} {lhs rhs : Tree}
    {span span' : Option Span} (hmatch : S.Match (.arithmetic op lhs rhs span) tree')
    (hspan : S.Spans span span') (a b : Int) :
    S.Rel (op.apply a b span) (op.apply a b span') := by
  unfold Arithmetic.apply
  cases op with
  | add | sub | mul => exact S.pure _
  | div =>
      dsimp only
      split
      · exact S.mistake henv hmatch (.divisionByZero rfl) hspan
      · exact S.pure _

/-- Calls of one form are related if the evaluations that they lead to are. -/
theorem invoke
    (h : ∀ env env', S.Env env env' → ∀ tree tree', S.Match tree tree' →
      S.Rel (evalIn env tree) (evalIn' env' tree'))
    (henv : S.Env env env') (hmatch : S.Match tree tree')
    (hchildren : List.Forall₂ S.Match tree.children tree'.children) {form : Form}
    (hform : tree.form? = some form) (hform' : tree'.form? = some form) :
    S.Rel (invoke S.left evalIn env form tree.children tree.span?)
      (invoke S.right evalIn' env' form tree'.children tree'.span?) := by
  have hspan := S.span hmatch
  have hlength : tree'.children.length = tree.children.length := hchildren.length_eq.symm
  unfold DiceLang.invoke
  rcases S.builtin hmatch hform with ⟨hleft, hright⟩ |
    ⟨command, command', hleft, hright, hsame, harity, haction⟩
  · rw [hleft, hright]
    dsimp only
    rcases S.lookup henv hmatch hchildren hform hform' hleft with ⟨hnone, hnone'⟩ | ⟨hnone, hlost⟩ |
      ⟨command, command', hbound, hbound', hparameters, hbody, hscope⟩
    · rw [hnone, hnone']
      exact S.mistake henv hmatch (.unknownForm hform) hspan
    · rw [hnone]
      exact hlost _
    · rw [hbound, hbound']
      dsimp only
      unfold Command.call
      rw [hlength, hparameters]
      split
      · exact h _ _ hscope _ _ hbody
      · next hcount => exact S.mistake henv hmatch (.arity hform hbound hcount) hspan
  · rw [hleft, hright]
    dsimp only
    unfold Builtin.call
    rw [hlength, hsame, harity]
    split
    · have hwants : tree.wantsIntegers S.left = true := by
        rw [Tree.wantsIntegers_of_form? hform, Registry.contains, hleft]
        rfl
      have hoperands : List.Forall₂ (fun operand operand' => operand ∈ tree.children ∧
          S.Match operand operand' ∧ S.Rel (evalIn env operand) (evalIn' env' operand'))
          tree.children tree'.children := by
        refine (List.forall₂_and_left _ _).mpr ⟨fun operand hoperand => hoperand, ?_⟩
        exact hchildren.imp fun operand operand' hsame => ⟨hsame, h env env' henv _ _ hsame⟩
      refine S.bind (S.evalIntegers henv hmatch hwants hoperands) fun operands => ?_
      exact S.bind (haction operands) fun result => S.pure _
    · next hcount => exact S.mistake henv hmatch (.builtinArity hform hleft hcount) hspan

/-- **One node.**  In related environments, parallel nodes that are compared are related, if whatever
they evaluate is. -/
theorem node
    (h : ∀ env env', S.Env env env' → ∀ tree tree', S.Match tree tree' →
      S.Rel (evalIn env tree) (evalIn' env' tree'))
    (henv : S.Env env env') (hmatch : S.Match tree tree')
    (hparallel : Tree.Parallel S.Match tree tree') :
    S.Rel (evalNode S.left evalIn env tree) (evalNode S.right evalIn' env' tree') := by
  have hspan := S.span hmatch
  unfold evalNode
  rw [hparallel.form?]
  cases hform : tree.form? with
  | some form =>
      exact S.invoke h henv hmatch hparallel.children hform (hparallel.form?.trans hform)
  | none =>
      cases hparallel with
      | integer n span span' => exact S.pure _
      | @arithmetic op lhs lhs' rhs rhs' span span' hlhs hrhs =>
          have hleft : lhs ∈ (Tree.arithmetic op lhs rhs span).children := by simp [Tree.children]
          have hright : rhs ∈ (Tree.arithmetic op lhs rhs span).children := by simp [Tree.children]
          refine S.bind (S.evalInteger henv hmatch rfl hleft hlhs
            (h env env' henv _ _ hlhs)) fun a => ?_
          refine S.bind (S.evalInteger henv hmatch rfl hright hrhs
            (h env env' henv _ _ hrhs)) fun b => ?_
          exact S.apply henv hmatch hspan a b
      | @comparison op lhs lhs' rhs rhs' span span' hlhs hrhs =>
          have hleft : lhs ∈ (Tree.comparison op lhs rhs span).children := by simp [Tree.children]
          have hright : rhs ∈ (Tree.comparison op lhs rhs span).children := by simp [Tree.children]
          dsimp only
          split
          · next hordering =>
              refine S.bind (S.evalInteger henv hmatch hordering hleft hlhs
                (h env env' henv _ _ hlhs)) fun a => ?_
              exact S.bind (S.evalInteger henv hmatch hordering hright hrhs
                (h env env' henv _ _ hrhs)) fun b => S.pure _
          · refine S.bind (h env env' henv _ _ hlhs) fun a => ?_
            exact S.bind (h env env' henv _ _ hrhs) fun b => S.pure _
      | call name span span' hargs =>
          dsimp only
          rw [← hargs.length_eq]
          exact S.mistake henv hmatch (.shapeless rfl) hspan
      | nullary | prefixed | infixed | postfixed => cases hform
      | hole | definition | program => exact S.stuck hmatch rfl

end Simulation

end DiceLang
