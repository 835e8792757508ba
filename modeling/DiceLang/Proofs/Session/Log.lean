import DiceLang.Dice.Script
import DiceLang.Proofs.Token.Scan
import DiceLang.Session

/-!
# The environment of a session is a log

A session is taken through steps: lines are run and definitions forgotten.  What is defined after
any number of steps is told by the definitions that were read since the last reset, and by nothing
else: not by the lines that failed, not by the values that were computed, not by the dice.

`Environment.Records log` says that an environment holds what a list of definitions defines, the
last definition of each form in the place of its first.  `Session.env_step` says what one step does
to the environment, and `Session.env_records` what comes of any number of them.
-/

namespace DiceLang

/-- The command that a definition defines. -/
def Definition.command (definition : Definition) : Command :=
  ⟨definition.parameters, definition.body⟩

namespace Environment

/-- An environment holds what a list of definitions defines. -/
structure Records (env : Environment) (log : List Definition) : Prop where
  /-- A form is bound to its last definition, and not at all if it has none. -/
  commands : ∀ form, env.get? form =
    (log.reverse.find? fun definition => definition.form = form).map Definition.command
  /-- The bound forms stand in the order of their first definitions. -/
  order : env.forms = (log.map Definition.form).eraseDups
  /-- No form is bound twice. -/
  distinct : env.forms.Nodup

variable {env : Environment} {log : List Definition}

theorem empty_records : Environment.empty.Records [] where
  commands := fun _ => rfl
  order := rfl
  distinct := List.nodup_nil

/-- The order of first occurrence, when one more form comes last. -/
theorem eraseDups_concat (forms : List Form) (form : Form) :
    (forms ++ [form]).eraseDups =
      if form ∈ forms then forms.eraseDups else forms.eraseDups ++ [form] := by
  rw [List.eraseDups_append]
  by_cases hform : form ∈ forms
  · simp [List.removeAll, hform]
  · simp [List.removeAll, hform, List.eraseDups_cons]

/-- A further definition is recorded at the end. -/
theorem Records.define (h : env.Records log) (definition : Definition) :
    (env.define definition).Records (log ++ [definition]) where
  commands := by
    intro form
    show (env.insert definition.form definition.command).get? form = _
    rw [get?_insert, List.reverse_append]
    by_cases hform : definition.form = form
    · simp [hform]
    · have hother : form ≠ definition.form := fun hsame => hform hsame.symm
      simp [hform, hother, h.commands form]
  order := by
    show (env.insert definition.form definition.command).forms = _
    rw [forms_insert, h.order, List.map_append, List.map_singleton, eraseDups_concat]
    simp only [List.mem_eraseDups]
  distinct := nodup_forms_insert _ _ h.distinct

theorem Records.load (h : env.Records log) (block : Program) :
    (env.load block).Records (log ++ block.definitions) := by
  unfold Environment.load
  generalize block.definitions = definitions
  induction definitions generalizing env log with
  | nil => simpa using h
  | cons definition definitions ih => simpa using ih (h.define definition)

end Environment

/-- The definitions that a line makes: those of the block that it is read as, if it is one. -/
def definitionsOf (text : String) : List Definition :=
  match Line.parse text with
  | .ok (.program block) => block.definitions
  | _ => []

/-- A text without an arrow is not read as a block. -/
theorem Line.parse_ne_program {text : String}
    (h : (tokenize text).any (fun token => token.kind == .arrow) = false) (block : Program) :
    Line.parse text ≠ .ok (.program block) := by
  unfold Line.parse Line.ofTokens
  rw [h]
  cases Tree.ofTokens nestingLimit (tokenize text) with
  | ok tree => exact nofun
  | error failure => exact nofun

/-- A line that is no program defines nothing. -/
theorem definitionsOf_eq_nil {text : String}
    (h : ∀ block, Line.parse text ≠ .ok (.program block)) : definitionsOf text = [] := by
  unfold definitionsOf
  split
  · next block hblock => exact absurd hblock (h block)
  · rfl

/-- An empty line defines nothing. -/
theorem definitionsOf_of_isEmptyLine {text : String} (h : Text.isEmptyLine text = true) :
    definitionsOf text = [] := by
  refine definitionsOf_eq_nil (Line.parse_ne_program (List.any_eq_false.mpr ?_))
  intro token htoken
  simpa using kind_ne_arrow_of_isEmptyLine h htoken

namespace Session

/-- What can be done with a session. -/
inductive Step
  | line (text : String)
  | reset

/-- The texts of the lines since the last reset, when there were those of `texts` before a step. -/
def Step.since (texts : List String) : Step → List String
  | .line text => texts ++ [text]
  | .reset => []

/-- The texts of the lines that were run since the last reset. -/
def sinceReset (steps : List Step) : List String :=
  steps.foldl Step.since []

variable {σ : Type}

/-- A failure leaves the session as it is. -/
theorem session_fail (session : Session σ) (notes : List Note) (failure : Failure) :
    (session.fail notes failure).session = session := by
  cases failure <;> rfl

variable [Dice σ]

/-- The session after a step, whatever comes of it. -/
def step (session : Session σ) : Step → Session σ
  | .line text => (session.runLine text).session
  | .reset => session.reset

/-- The session after any number of steps. -/
def after (session : Session σ) (steps : List Step) : Session σ :=
  steps.foldl step session

/-- Only dice are spent on an expression. -/
theorem session_play (session : Session σ) (text : String) (tree : Tree) :
    (session.play text tree).session.env = session.env ∧
      (session.play text tree).session.fresh = session.fresh := by
  unfold play
  split
  · exact ⟨rfl, rfl⟩
  · rw [session_fail]
    exact ⟨rfl, rfl⟩

/-- What is read decides what becomes of the environment. -/
theorem session_runParsed (session : Session σ) (text : String) (parsed : Except Failure Line) :
    (session.runParsed text parsed).session.env =
        (match parsed with
          | .ok (.program block) => session.env.load block
          | _ => session.env) ∧
      (session.runParsed text parsed).session.fresh = session.fresh := by
  cases parsed with
  | error failure =>
      unfold runParsed
      rw [session_fail]
      exact ⟨rfl, rfl⟩
  | ok line =>
      cases line with
      | program block => exact ⟨rfl, rfl⟩
      | expression tree => exact session.session_play text tree

/-- **One line.**  An empty line changes nothing.  Any other line adds its own definitions to those
before it, which a fresh session has forgotten. -/
theorem session_runLine (session : Session σ) (text : String) :
    (session.runLine text).session.env =
        (if Text.isEmptyLine text then session.env
          else (if session.fresh then Environment.empty else session.env).load
            ⟨definitionsOf text, none⟩) ∧
      (session.runLine text).session.fresh = session.fresh := by
  unfold runLine
  split
  · exact ⟨rfl, rfl⟩
  · obtain ⟨henv, hfresh⟩ := (if session.fresh then session.reset else session).session_runParsed
      text (Line.parse text)
    constructor
    · rw [henv, definitionsOf]
      split <;> split <;> rfl
    · rw [hfresh]
      split <;> rfl

/-- No step changes whether a session is fresh. -/
theorem fresh_step (session : Session σ) (action : Step) :
    (session.step action).fresh = session.fresh := by
  cases action with
  | line text => exact (session.session_runLine text).2
  | reset => rfl

/-- What every step keeps is kept by any number of them. -/
theorem after_invariant {P : Session σ → Prop}
    (hstep : ∀ (session : Session σ) (action : Step), P session → P (session.step action))
    {session : Session σ} (h : P session) (steps : List Step) : P (session.after steps) := by
  unfold after
  induction steps generalizing session with
  | nil => exact h
  | cons action steps ih => exact ih (hstep session action h)

theorem fresh_after (session : Session σ) (steps : List Step) :
    (session.after steps).fresh = session.fresh := by
  refine after_invariant (P := fun reached => reached.fresh = session.fresh) ?_ rfl steps
  intro reached action hreached
  rw [fresh_step, hreached]

/-- **One step.**  A session that is not fresh keeps the log of the lines since the last reset. -/
theorem env_step {session : Session σ} (hfresh : session.fresh = false) {texts : List String}
    (h : session.env.Records (texts.flatMap definitionsOf)) (action : Step) :
    (session.step action).env.Records ((action.since texts).flatMap definitionsOf) := by
  cases action with
  | reset => exact Environment.empty_records
  | line text =>
      unfold step
      rw [(session.session_runLine text).1, hfresh]
      simp only [Step.since, List.flatMap_append, List.flatMap_singleton]
      split
      · next hempty =>
          rw [definitionsOf_of_isEmptyLine hempty, List.append_nil]
          exact h
      · exact h.load ⟨definitionsOf text, none⟩

/-- After any steps of a session that is not fresh, its environment records all lines since the last
reset. -/
theorem env_after {session : Session σ} (hfresh : session.fresh = false) {texts : List String}
    (h : session.env.Records (texts.flatMap definitionsOf)) (steps : List Step) :
    (session.after steps).env.Records ((steps.foldl Step.since texts).flatMap definitionsOf) := by
  unfold after
  induction steps generalizing session texts with
  | nil => exact h
  | cons action steps ih =>
      exact ih ((session.fresh_step action).trans hfresh) (env_step hfresh h action)

/-- **The environment is a log.**  Take a session through any steps, with any dice.

If it is not fresh, its environment records the definitions of the lines since the last reset, and
running a line that is not read as a block of definitions leaves it as it is.  If it is fresh, then
running a line leaves the definitions of that line, and running an empty one changes nothing. -/
theorem env_records (dice : σ) (steps : List Step) (text : String) :
    ((start false dice).after steps).env.Records ((sinceReset steps).flatMap definitionsOf) ∧
    ((∀ block, Line.parse text ≠ .ok (.program block)) →
      (((start false dice).after steps).runLine text).session.env =
        ((start false dice).after steps).env) ∧
    (if Text.isEmptyLine text then
      (((start true dice).after steps).runLine text).session.env =
        ((start true dice).after steps).env
    else
      (((start true dice).after steps).runLine text).session.env.Records (definitionsOf text)) := by
  refine ⟨?_, ?_, ?_⟩
  · have hstart : (start false dice).env.Records (([] : List String).flatMap definitionsOf) :=
      Environment.empty_records
    exact env_after rfl hstart steps
  · intro hnone
    rw [(session_runLine _ text).1, fresh_after, definitionsOf_eq_nil hnone]
    split <;> rfl
  · rw [(session_runLine _ text).1, fresh_after]
    split
    · rfl
    · exact Environment.empty_records.load ⟨definitionsOf text, none⟩

/-- Lines of every sort: a definition that is forgotten, a block that defines `y` and `x`, a block
that is malformed, an expression that fails, and another definition of `y`. -/
def mixedSteps : List Step :=
  [.line "x => 1", .reset, .line "y => 2\nx => 3", .line "z => 4\nx => (", .line "1/0",
    .line "y => 5"]

/-- After a reset and two definitions both are bound, in their order, and a failing line leaves them
alone. -/
theorem env_records_mixedSteps :
    ((start false (Script.ofRolls [])).after mixedSteps).env.forms =
        [⟨"y", .nullary⟩, ⟨"x", .nullary⟩] ∧
      (((start false (Script.ofRolls [])).after mixedSteps).runLine "1/0").session.env =
        ((start false (Script.ofRolls [])).after mixedSteps).env := by
  obtain ⟨hlog, hkept, -⟩ := env_records (Script.ofRolls []) mixedSteps "1/0"
  have horder : (((sinceReset mixedSteps).flatMap definitionsOf).map Definition.form).eraseDups =
      [⟨"y", .nullary⟩, ⟨"x", .nullary⟩] := by decide +kernel
  have harrow : (tokenize "1/0").any (fun token => token.kind == .arrow) = false := by
    decide +kernel
  exact ⟨hlog.order.trans horder, hkept (Line.parse_ne_program harrow)⟩

end Session

end DiceLang
