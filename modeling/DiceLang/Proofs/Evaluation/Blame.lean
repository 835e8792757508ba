import DiceLang.Proofs.Environment
import DiceLang.Proofs.Evaluation.Relation
import DiceLang.Proofs.Rolling
import DiceLang.Proofs.Tree.WellFormed

/-!
# What mistakes point at

Arguments are bound as they stand, so in the course of an evaluation the nodes of a line and those of
the definitions turn up in scopes of all sorts.  But no node is ever made up: what is evaluated comes
from the line or from a definition, and so does what a mistake points at.

`Points code line cause node` says that a node is one that a mistake can rightly be blamed on.
`evaluate_blames` says that evaluation fails with mistakes that point at such nodes.  Mistakes about
the number of arguments are not among them: in well-formed code a call has as many arguments as its
form has operands.
-/

namespace DiceLang

open Eval (Raises raises_pure raises_throw raises_lift)

/-- A set of nodes that evaluation does not lead out of, all of them expressions. -/
structure Code (code : Tree → Prop) : Prop where
  child {tree child : Tree} : code tree → child ∈ tree.children → code child
  expression {tree : Tree} : code tree → tree.isExpression = true

/-- What is well formed is code that evaluation does not lead out of. -/
theorem code_wellFormed : Code Tree.WellFormed where
  child := fun htree hchild => htree.child hchild
  expression := Tree.WellFormed.isExpression

/-- The nodes that a mistake can be blamed on, when a line is evaluated. -/
inductive Points (code : Tree → Prop) (line : Tree) : Cause → Tree → Prop
  /-- A call of a command that there is not. -/
  | unknownForm {node : Tree} {form : Form} (hform : node.form? = some form) :
      Points code line (.unknownForm form) node
  /-- A call with a number of arguments that no command takes. -/
  | shapeless (name : String) (args : List Tree) (span : Option Span) :
      Points code line (.shapeless name args.length) (.call name args span)
  /-- An operand of arithmetic, of an ordering or of a roll of dice. -/
  | notInteger {parent operand : Tree} (hparent : code parent)
      (hwants : parent.wantsIntegers .standard = true) (hoperand : operand ∈ parent.children) :
      Points code line .notInteger operand
  /-- A division. -/
  | divisionByZero (lhs rhs : Tree) (span : Option Span) :
      Points code line .divisionByZero (.arithmetic .div lhs rhs span)
  /-- A roll of dice. -/
  | invalidDice {node : Tree} {form : Form} (count sides : Int) (hform : node.form? = some form)
      (hdice : Registry.standard.contains form = true) :
      Points code line (.invalidDice count sides) node
  /-- The whole line. -/
  | recursion : Points code line .recursion line

/-- Nothing can be blamed for the number of arguments of a command. -/
theorem Points.code_ne {code : Tree → Prop} {line node : Tree} {cause : Cause}
    (h : Points code line cause node) : cause.code ≠ "E202" := by
  cases h <;> simp [Cause.code]

/-- How evaluation may fail: with a mistake that points at a node of the code, or without a report
because a number is too long. -/
inductive Blamed (code : Tree → Prop) (line : Tree) : Failure → Prop
  | mistake {cause : Cause} {node : Tree} (hnode : code node)
      (hpoints : Points code line cause node) :
      Blamed code line (.ofCause cause node.span?)
  | digitLimit : Blamed code line .digitLimit

/-- A call has as many arguments as its form has operands. -/
theorem Tree.children_length_of_form? {tree : Tree} {form : Form} (h : tree.form? = some form) :
    tree.children.length = form.shape.arity := by
  cases tree with
  | nullary | prefixed | infixed | postfixed =>
      cases h
      rfl
  | call name args span =>
      obtain ⟨shape, hshape, rfl⟩ := Option.map_eq_some_iff.mp h
      show args.length = shape.arity
      unfold Shape.ofArgumentCount? at hshape
      split at hshape
      · next hcount =>
          cases hshape
          exact hcount
      · next hcount =>
          cases hshape
          exact hcount
      · cases hshape
  | hole | integer | arithmetic | comparison | definition | program => cases h

section Blame

variable {code : Tree → Prop} {line : Tree} {env : Environment} {tree : Tree}

/-- The bodies of all commands are code, and they have as many parameters as their forms have
operands. -/
def Environment.Holds (code : Tree → Prop) (env : Environment) : Prop :=
  env.All fun form command => code command.body ∧ command.parameters.length = form.shape.arity

/-- The mistakes of a node point at code, and none of them is about the number of arguments. -/
theorem Mistaken.blamed (hcode : Code code) (henv : env.Holds code) (htree : code tree)
    {cause : Cause} {span : Option Span} (h : Mistaken .standard env tree cause span) :
    Blamed code line (.ofCause cause span) := by
  cases h with
  | notInteger hwants hoperand =>
      exact .mistake (hcode.child htree hoperand) (.notInteger htree hwants hoperand)
  | divisionByZero hdivision =>
      subst hdivision
      exact .mistake htree (.divisionByZero _ _ _)
  | unknownForm hform => exact .mistake htree (.unknownForm hform)
  | shapeless hcall =>
      subst hcall
      exact .mistake htree (.shapeless _ _ _)
  | builtinArity hform hcommand hcount =>
      obtain ⟨hshape, harity, -⟩ := Registry.get?_standard_eq_some hcommand
      rw [Tree.children_length_of_form? hform, hshape, harity] at hcount
      exact absurd rfl hcount
  | arity hform hcommand hcount =>
      rw [Tree.children_length_of_form? hform] at hcount
      exact absurd (henv.get? hcommand).2.symm hcount

/-- A complaint about dice points at the call. -/
theorem Builtin.adapt_rollAction_raises {form : Form} (htree : code tree)
    (hform : tree.form? = some form) (hdice : Registry.standard.contains form = true)
    (operands : List Int) :
    Raises (Blamed code line) (ExceptT.adapt (Failure.orAt tree.span?) (rollAction operands)) := by
  have hraises : Raises (fun failure => failure = .digitLimit ∨
      ∃ count sides, failure = .ofCause (.invalidDice count sides) none) (rollAction operands) := by
    unfold rollAction
    split
    · unfold roll
      split
      · refine raises_throw ?_
        split
        · exact .inr ⟨_, _, rfl⟩
        · exact .inl rfl
      · exact raises_lift _
    · exact raises_pure _
  refine hraises.adapt ?_
  rintro failure (rfl | ⟨count, sides, rfl⟩)
  · exact .digitLimit
  · exact .mistake htree (.invalidDice count sides hform hdice)

/-- Evaluations that only raise what can be blamed on code.  There is nothing to compare them with,
so the second computation is left out of account. -/
def EvalRelation.blaming (hcode : Code code) (line : Tree) : EvalRelation where
  Rel m _ := Raises (fun failure => Blamed code line failure ∨ failure = .tooDeep) m
  Env env env' := env' = env ∧ env.Holds code
  Good := code
  left := .standard
  right := .standard
  slack := 0
  pure := raises_pure
  bind := Raises.bind
  mistake henv htree hmistaken := raises_throw (.inl (hmistaken.blamed hcode henv.2 htree))
  deep := .inl ⟨rfl, raises_throw (.inr rfl)⟩
  builtin form := by
    cases hbuiltin : Registry.standard.get? form with
    | none => exact .inl ⟨rfl, rfl⟩
    | some command =>
        refine .inr ⟨command, command, rfl, rfl, rfl, rfl, fun tree htree hform operands => ?_⟩
        have hdice : Registry.standard.contains form = true := by
          rw [Registry.contains, hbuiltin]
          rfl
        rw [(Registry.get?_standard_eq_some hbuiltin).2.2]
        exact (Builtin.adapt_rollAction_raises htree hform hdice operands).imp fun _ => .inl
  child := hcode.child
  stuck := by
    intro tree htree hstuck
    rw [hcode.expression htree] at hstuck
    cases hstuck
  lookup := by
    rintro env _ ⟨rfl, henv⟩ form
    exact .inl ⟨rfl, fun command hcommand => (henv.get? hcommand).1⟩
  extend := by
    rintro env _ ⟨rfl, henv⟩ arguments harguments
    exact ⟨rfl, henv.extend fun argument hargument => ⟨harguments argument hargument, rfl⟩⟩

/-- **Mistakes point at code.**  If an expression and all definitions are code, then the mistakes of
its evaluation are blamed on code, and a spent budget on the whole expression. -/
theorem evaluate_blames (hcode : Code code) (henv : env.Holds code) (htree : code tree) :
    Raises (Blamed code tree) (evaluate .standard env tree) := by
  have hsame : (EvalRelation.blaming hcode tree).Env env env := ⟨rfl, henv⟩
  have heval := (EvalRelation.blaming hcode tree).eval evaluationLimit hsame htree
  refine heval.adapt ?_
  rintro failure (hblamed | rfl)
  · cases hblamed with
    | mistake hnode hpoints => exact .mistake hnode hpoints
    | digitLimit => exact .digitLimit
  · exact .mistake htree .recursion

end Blame

end DiceLang
