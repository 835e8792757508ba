import DiceLang.Proofs.Evaluation.Relation
import DiceLang.Proofs.Rolling

/-!
# Evaluation in wider environments

An environment is wider than another one if it binds every form as that one does, or binds one that
is unbound there and whose absence is given up for lost.  Calls widen both environments alike, so
the relation is kept by everything that evaluation does: `eval_follows` says that an expression does
in the wider environment, and with a larger budget, what it does in the narrower one.
-/

namespace DiceLang

open Eval (Follows follows_throw)

variable {lost : Failure → Prop}

namespace Environment

/-- `wider` binds the forms that `env` binds, to the same commands; where it binds more, a call that
finds nothing in `env` is `lost`. -/
def Widens (lost : Failure → Prop) (env wider : Environment) : Prop :=
  ∀ form, wider.get? form = env.get? form ∨
    env.get? form = none ∧ ∀ span, lost (.ofCause (.unknownForm form) span)

variable {env wider : Environment}

/-- A command may be added on both sides. -/
theorem Widens.insert (h : env.Widens lost wider) (form : Form) (command : Command) :
    (env.insert form command).Widens lost (wider.insert form command) := by
  intro other
  rw [get?_insert, get?_insert]
  by_cases hother : other = form
  · simp [hother]
  · simpa [hother] using h other

theorem Widens.extend (h : env.Widens lost wider) (arguments : List (String × Tree)) :
    (env.extend arguments).Widens lost (wider.extend arguments) := by
  induction arguments generalizing env wider with
  | nil => exact h
  | cons argument arguments ih => exact ih (h.insert _ _)

end Environment

/-- The comparison of evaluations in an environment and in a wider one, of which the second may go
deeper. -/
def EvalRelation.widening (registry : Registry) (hdeep : lost .tooDeep) (slack : Nat) :
    EvalRelation where
  Rel := Follows lost
  Env := Environment.Widens lost
  Good _ := True
  left := registry
  right := registry
  slack := slack
  pure a := .refl _
  bind := Follows.bind
  mistake _ _ _ := .refl _
  deep := .inr (follows_throw hdeep)
  builtin form := by
    cases registry.get? form with
    | none => exact .inl ⟨rfl, rfl⟩
    | some command => exact .inr ⟨command, command, rfl, rfl, rfl, rfl, fun _ _ _ _ => .refl _⟩
  child _ _ := trivial
  stuck _ _ := .refl _
  lookup := by
    intro env wider hwider form
    rcases hwider form with hsame | ⟨hnone, hlost⟩
    · exact .inl ⟨hsame, fun _ _ => trivial⟩
    · exact .inr ⟨hnone, fun span => follows_throw (hlost span)⟩
  extend hwider _ _ := hwider.extend _

/-- **Wider environments and larger budgets.**  Whatever an expression does in an environment within
a budget, it does in a wider environment within a larger budget, unless a failure is lost. -/
theorem eval_follows (registry : Registry) (hdeep : lost .tooDeep) {budget larger : Nat}
    (hbudget : budget ≤ larger) {env wider : Environment} (hwider : env.Widens lost wider)
    (tree : Tree) :
    Follows lost (eval registry budget env tree) (eval registry larger wider tree) := by
  obtain ⟨slack, rfl⟩ := Nat.exists_eq_add_of_le hbudget
  exact (EvalRelation.widening registry hdeep slack).eval budget hwider trivial

end DiceLang
