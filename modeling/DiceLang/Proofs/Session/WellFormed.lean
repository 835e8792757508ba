import DiceLang.Proofs.Evaluation.Blame
import DiceLang.Proofs.Evaluation.Guard
import DiceLang.Proofs.Session.Escape

/-!
# Sessions keep to well-formed code

Whatever is bound in a session has been read from a text, so what holds of all definitions that can be
read holds of everything that is bound (`Session.all_after`).  In particular the environment of a
session is well formed, and so are the scopes that its lines are evaluated in.

A line that fails does so because it could not be read or because its evaluation failed
(`Session.failure?_runLine`).  Neither is ever about the number of arguments of a command or about a
node that is no expression: `Session.scopes_wellFormed` puts this together.
-/

namespace DiceLang

/-- How a line has failed, if it has. -/
def Run.failure? {σ : Type} (run : Run σ) : Option Failure :=
  match run.outcome with
  | .ok (.failed mistake) => some (.fault mistake)
  | .ok _ => none
  | .error failure => some failure

/-- What is defined by a text has been read from it. -/
theorem mem_definitionsOf {text : String} {definition : Definition}
    (h : definition ∈ definitionsOf text) :
    ∃ block, Line.parse text = .ok (.program block) ∧ definition ∈ block.definitions := by
  unfold definitionsOf at h
  split at h
  · next block hparse => exact ⟨block, hparse, h⟩
  · cases h

namespace Session

variable {σ : Type} {P : Form → Command → Prop}

/-- What holds of all bindings of a session holds of those that it starts a line with. -/
theorem all_opened {session : Session σ} (h : session.env.All P) : session.opened.env.All P := by
  unfold opened
  split
  · exact Environment.all_empty
  · exact h

theorem failure?_fail (session : Session σ) (notes : List Note) (failure : Failure) :
    (session.fail notes failure).failure? = some failure := by
  cases failure <;> rfl

variable [Dice σ]

/-- An expression fails as its evaluation does. -/
theorem failure?_play {session : Session σ} {text : String} {tree : Tree} {failure : Failure}
    (h : (session.play text tree).failure? = some failure) :
    ((evaluate .standard session.env tree).play session.dice).1 = .error failure := by
  unfold play at h
  split at h
  · cases h
  · next reason after hplay =>
      rw [failure?_fail] at h
      cases h
      rw [hplay]

/-- **How a line fails.**  It cannot be read, or it is an expression whose evaluation fails. -/
theorem failure?_runLine {session : Session σ} {text : String} {failure : Failure}
    (h : (session.runLine text).failure? = some failure) :
    Line.parse text = .error failure ∨
    ∃ tree, Line.parse text = .ok (.expression tree) ∧
      ((evaluate .standard session.opened.env tree).play session.opened.dice).1 =
        .error failure := by
  cases hline : Text.isEmptyLine text with
  | true =>
      unfold runLine at h
      rw [hline] at h
      cases h
  | false =>
      rw [runLine_eq hline] at h
      cases hparse : Line.parse text with
      | error reason =>
          rw [hparse, runParsed, failure?_fail] at h
          cases h
          exact .inl rfl
      | ok line =>
          rw [hparse] at h
          cases line with
          | program block => cases h
          | expression tree => exact .inr ⟨tree, rfl, failure?_play h⟩

/-- **What is bound has been read.**  What holds of all definitions of all texts holds of everything
that is bound in a session. -/
theorem all_after (hread : ∀ text, ∀ definition ∈ definitionsOf text,
      P definition.form ⟨definition.parameters, definition.body⟩)
    (fresh : Bool) (dice : σ) (steps : List Step) :
    ((start fresh dice).after steps).env.All P := by
  refine after_invariant (P := fun session => session.env.All P) ?_ Environment.all_empty steps
  intro session action henv
  cases action with
  | reset => exact Environment.all_empty
  | line text =>
      show (session.runLine text).session.env.All P
      rw [(session.session_runLine text).1]
      split
      · exact henv
      · have hbase : (if session.fresh then Environment.empty else session.env).All P := by
          split
          · exact Environment.all_empty
          · exact henv
        exact hbase.load (hread text)

/-- Any steps leave a well-formed environment. -/
theorem wellFormed_after (fresh : Bool) (dice : σ) (steps : List Step) :
    ((start fresh dice).after steps).env.WellFormed := by
  refine all_after ?_ fresh dice steps
  intro text definition hdefinition
  obtain ⟨block, hparse, hmem⟩ := mem_definitionsOf hdefinition
  exact Line.parse_wellFormed hparse definition hmem

/-- A line fails with a mistake that is not about the number of arguments, or for a number that is
too long, or because the dice do. -/
theorem failure?_cases {session : Session σ} (henv : session.env.WellFormed) {text : String}
    {failure : Failure} (h : (session.runLine text).failure? = some failure) :
    (∃ mistake, failure = .fault mistake ∧ mistake.cause.code ≠ "E202") ∨
      failure = .digitLimit ∨ ∃ reason, failure = .mishap reason := by
  rcases failure?_runLine h with hparse | ⟨tree, hparse, hplay⟩
  · rcases Line.parse_refused hparse with ⟨mistake, rfl, hcode⟩ | ⟨rfl, -⟩
    · refine .inl ⟨mistake, rfl, ?_⟩
      intro harity
      rw [harity] at hcode
      exact absurd hcode (by decide)
    · exact .inr (.inl rfl)
  · have hholds : session.opened.env.Holds Tree.WellFormed :=
      (all_opened henv).imp fun form command hsuits => ⟨hsuits.body, hsuits.count⟩
    have htree : tree.WellFormed := Line.parse_wellFormed hparse
    rcases (evaluate_blames code_wellFormed hholds htree).play_or_mishap hplay with
      hblamed | hmishap
    · cases hblamed with
      | digitLimit => exact .inr (.inl rfl)
      | mistake hnode hpoints => exact .inl ⟨_, rfl, hpoints.code_ne⟩
    · exact .inr (.inr hmishap)

/-- **Text alone never makes a call misfit.**  Take a session with any dice through any steps.

Its environment is well formed: every command has as many parameters as the shape of its form has
operands, all of them different, and a well-formed body.  When a line is evaluated, so is every scope
that the evaluation comes through: an alarm given in any other scope, be it what it may, changes
nothing.  And no line fails for the number of arguments of a command, or for a node that is no
expression. -/
theorem scopes_wellFormed (fresh : Bool) (dice : σ) (steps : List Step) :
    ((start fresh dice).after steps).env.WellFormed ∧
    ∀ text : String,
      (∀ tree, Line.parse text = .ok (.expression tree) → ∀ (alarm : Failure) (budget : Nat),
        evalWhere Environment.WellFormed alarm .standard budget
            ((start fresh dice).after steps).opened.env tree =
          eval .standard budget ((start fresh dice).after steps).opened.env tree) ∧
      (∀ mistake, (((start fresh dice).after steps).runLine text).outcome = .ok (.failed mistake) →
        mistake.cause.code ≠ "E202") ∧
      ∀ name, (((start fresh dice).after steps).runLine text).outcome ≠
        .error (.notExpression name) := by
  have henv := wellFormed_after fresh dice steps
  refine ⟨henv, fun text => ⟨?_, ?_, ?_⟩⟩
  · intro tree hparse alarm budget
    have htree : tree.WellFormed := Line.parse_wellFormed hparse
    exact evalWhere_wellFormed alarm .standard budget (all_opened henv) htree
  · intro mistake houtcome
    have hfailure : (((start fresh dice).after steps).runLine text).failure? =
        some (.fault mistake) := by
      rw [Run.failure?, houtcome]
    rcases failure?_cases henv hfailure with ⟨mistake, hsame, hcode⟩ | hsame | ⟨reason, hsame⟩
    · cases hsame
      exact hcode
    · cases hsame
    · cases hsame
  · intro name houtcome
    have hfailure : (((start fresh dice).after steps).runLine text).failure? =
        some (.notExpression name) := by
      rw [Run.failure?, houtcome]
    rcases failure?_cases henv hfailure with ⟨mistake, hsame, -⟩ | hsame | ⟨reason, hsame⟩
    · cases hsame
    · cases hsame
    · cases hsame

/-- A command of two parameters that passes one of them on to another command. -/
def passingSteps : List Step :=
  [.line "twice \"x\" => x + x\npair \"a\" b => twice(a) * b"]

/-- Nothing is noticed in the scopes of a call with further calls for its arguments. -/
theorem scopes_wellFormed_passingSteps :
    ((start false (Script.ofRolls [])).after passingSteps).env.forms =
      [⟨"twice", .prefixed⟩, ⟨"pair", .infixed⟩] ∧
    ∃ tree, Line.parse "pair(2, 1 pair 3)" = .ok (.expression tree) ∧
      ∀ (alarm : Failure) (budget : Nat),
        evalWhere Environment.WellFormed alarm .standard budget
            ((start false (Script.ofRolls [])).after passingSteps).opened.env tree =
          eval .standard budget
            ((start false (Script.ofRolls [])).after passingSteps).opened.env tree := by
  have hforms : ((start false (Script.ofRolls [])).after passingSteps).env.forms =
      [⟨"twice", .prefixed⟩, ⟨"pair", .infixed⟩] := by decide +kernel
  have hread : (Line.parse "pair(2, 1 pair 3)").isOk = true := by decide +kernel
  have harrow : (tokenize "pair(2, 1 pair 3)").any (fun token => token.kind == .arrow) = false := by
    decide +kernel
  have hline := (scopes_wellFormed false (Script.ofRolls []) passingSteps).2 "pair(2, 1 pair 3)"
  cases hparse : Line.parse "pair(2, 1 pair 3)" with
  | error failure =>
      rw [hparse] at hread
      cases hread
  | ok line =>
      cases line with
      | program block => exact absurd hparse (Line.parse_ne_program harrow block)
      | expression tree => exact ⟨hforms, tree, rfl, hline.1 tree hparse⟩

end Session

end DiceLang
