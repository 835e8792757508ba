import DiceLang.Proofs.Session.Escape

/-!
# What a line asks of the dice

A line may ask for rolls, and what it asks for next may depend on what came up.  It does not depend
on what is still to come: dice that agree on the rolls that were asked for cannot be told apart.

A script that is long enough says how a computation is played (`Rolling.Plays`), and `Rolling.Asks`
says which requests it may make at all.

Running a line is such a computation (`Session.exists_computation`), so both hold of lines
(`Session.runLine_draws`).
-/

namespace DiceLang

namespace Rolling

variable {α β : Type} {P : Int → Prop}

/-- Every die that a computation may ask for has a number of sides of which `P` holds. -/
def Asks (P : Int → Prop) : Rolling α → Prop
  | done _ => True
  | draw sides next => P sides ∧ ∀ roll, (next roll).Asks P

/-- What two steps ask of the dice both of them ask in a row. -/
theorem Asks.bind {m : Rolling α} {f : α → Rolling β} (h : m.Asks P) (hf : ∀ a, (f a).Asks P) :
    (m >>= f).Asks P := by
  induction m with
  | done a => exact hf a
  | draw sides next ih => exact ⟨h.1, fun roll => ih roll (h.2 roll)⟩

/-- A sum of rolls only asks for its own die. -/
theorem rollSum_asks {sides : Int} (h : P sides) (count : Nat) (total : Int) :
    (rollSum sides count total).Asks P := by
  induction count generalizing total with
  | zero => trivial
  | succ count ih => exact ⟨h, fun roll => ih (total + roll)⟩

/-- Whatever becomes of a computation, it has made requests of the allowed sort only, and these are
noted on top of what was asked before. -/
theorem Asks.asked {m : Rolling α} (h : m.Asks P) (rolls : List (Option Int)) (before : List Int) :
    ∃ made : List Int, (m.run (⟨rolls, before⟩ : Script)).2.asked = made.reverse ++ before ∧
      ∀ sides ∈ made, P sides := by
  induction m generalizing rolls before with
  | done a => exact ⟨[], rfl, nofun⟩
  | draw sides next ih =>
      match rolls with
      | [] | none :: _ => exact ⟨[sides], rfl, List.forall_mem_singleton.mpr h.1⟩
      | some roll :: rolls =>
          obtain ⟨made, hasked, hmade⟩ := ih roll (h.2 roll) rolls (sides :: before)
          refine ⟨sides :: made, ?_, List.forall_mem_cons.mpr ⟨h.1, hmade⟩⟩
          rw [List.reverse_cons, List.append_assoc]
          exact hasked

end Rolling

namespace Eval

variable {α β : Type} {P : Int → Prop}

/-- Every die that a computation may ask for has a number of sides of which `P` holds. -/
def Asks (P : Int → Prop) (m : Eval α) : Prop := m.run.Asks P

theorem asks_pure (a : α) : Asks P (pure a : Eval α) := trivial

theorem asks_throw (failure : Failure) : Asks P (throw failure : Eval α) := trivial

/-- What two steps of an evaluation ask, both of them ask in a row. -/
theorem Asks.bind {m : Eval α} {f : α → Eval β} (h : Asks P m) (hf : ∀ a, Asks P (f a)) :
    Asks P (m >>= f) := by
  unfold Asks
  rw [ExceptT.run_bind]
  refine Rolling.Asks.bind h ?_
  rintro (failure | a)
  · trivial
  · exact hf a

theorem Asks.adapt {m : Eval α} (h : Asks P m) (g : Failure → Failure) :
    Asks P (ExceptT.adapt g m) := by
  unfold Asks
  rw [ExceptT.run_adapt, ← bind_pure_comp]
  exact Rolling.Asks.bind h fun _ => trivial

theorem asks_lift {m : Rolling α} (h : m.Asks P) : Asks P (ExceptT.lift m : Eval α) := by
  unfold Asks
  rw [ExceptT.run_lift, ← bind_pure_comp]
  exact h.bind fun _ => trivial

/-- What a computation comes to, given how its playing ends. -/
def settled : Except Mishap (Except Failure α) → Except Failure α
  | .ok outcome => outcome
  | .error mishap => .error (.mishap mishap)

/-- How a computation is played is how its rolls are run, with the failures of the dice among its own.
-/
theorem play_eq_settled {σ : Type} [Dice σ] (m : Eval α) (dice : σ) :
    m.play dice = (settled (m.run.run dice).1, (m.run.run dice).2) := by
  unfold play
  rcases m.run.run dice with ⟨mishap | outcome, after⟩
  · rfl
  · rfl

/-- **Computations and scripts.**  The requests of a computation are of the allowed sort.  If the
script is not exhausted, there is one roll for each of them; then only these rolls matter, and all
of them are needed. -/
theorem Asks.play_script {m : Eval α} (h : Asks P m) (script : Script) :
    ∃ made : List Int,
      (m.play script).2.asked = made.reverse ++ script.asked ∧
      (∀ sides ∈ made, P sides) ∧
      ((m.play script).1 ≠ .error (.mishap .exhausted) →
        made.length ≤ script.ahead.length ∧
        (m.play script).2.ahead = script.ahead.drop made.length ∧
        (∀ rolls : List (Option Int), rolls.take made.length = script.ahead.take made.length →
          m.play (⟨rolls, script.asked⟩ : Script) =
            ((m.play script).1, ⟨rolls.drop made.length, (m.play script).2.asked⟩)) ∧
        ∀ j < made.length, m.play (⟨script.ahead.take j, script.asked⟩ : Script) =
          (.error (.mishap .exhausted), ⟨[], (made.take (j + 1)).reverse ++ script.asked⟩)) := by
  obtain ⟨ahead, before⟩ := script
  simp only [play_eq_settled]
  by_cases hexhausted : (m.run.run (⟨ahead, before⟩ : Script)).1 = .error .exhausted
  · obtain ⟨made, hasked, hmade⟩ := Rolling.Asks.asked h ahead before
    refine ⟨made, hasked, hmade, fun hfinished => absurd ?_ hfinished⟩
    rw [hexhausted]
    rfl
  · obtain ⟨used, rest, made, outcome, rfl, hplays⟩ := Rolling.exists_plays hexhausted
    obtain ⟨made', hasked, hmade⟩ := Rolling.Asks.asked h (used ++ rest) before
    rw [hplays.run] at hasked ⊢
    obtain rfl : made = made' := List.reverse_injective (List.append_cancel_right hasked)
    refine ⟨made, rfl, hmade, fun _ => ?_⟩
    have hlength := hplays.length_eq
    rw [← hlength, List.drop_left, List.take_left]
    refine ⟨by simp, rfl, fun rolls hrolls => ?_, fun j hj => ?_⟩
    · obtain ⟨rest', rfl⟩ : used <+: rolls := hrolls ▸ List.take_prefix _ _
      rw [hplays.run, List.drop_left]
    · rw [List.take_append_of_le_length hj.le, hplays.run_take (hlength ▸ hj)]
      rfl

end Eval

open Eval (Asks asks_pure asks_throw asks_lift)

/-- The dice that are rolled have a side. -/
theorem Builtin.rollAction_asks (operands : List Int) : Asks (1 ≤ ·) (rollAction operands) := by
  unfold rollAction
  split
  · next count sides =>
      unfold roll
      split
      · exact asks_throw _
      · next hvalid =>
          have hsides : 1 ≤ sides := by
            simp only [Bool.or_eq_true, decide_eq_true_eq, not_or] at hvalid
            omega
          exact asks_lift (Rolling.rollSum_asks hsides _ _)
  · exact asks_pure _

/-- Evaluations that ask only for dice with sides.  There is nothing to compare them with, so the
second computation is left out of account. -/
def EvalRelation.asking : EvalRelation where
  Rel m _ := Asks (1 ≤ ·) m
  Env env env' := env' = env
  Good _ := True
  left := .standard
  right := .standard
  slack := 0
  pure := asks_pure
  bind := Asks.bind
  mistake _ _ _ := asks_throw _
  deep := .inl ⟨rfl, asks_throw _⟩
  builtin form := by
    cases hbuiltin : Registry.standard.get? form with
    | none => exact .inl ⟨rfl, rfl⟩
    | some command =>
        refine .inr ⟨command, command, rfl, rfl, rfl, rfl, fun tree _ _ operands => ?_⟩
        rw [(Registry.get?_standard_eq_some hbuiltin).2.2]
        exact (Builtin.rollAction_asks operands).adapt _
  child _ _ := trivial
  stuck _ _ := asks_throw _
  lookup := by
    rintro env _ rfl form
    exact .inl ⟨rfl, fun _ _ => trivial⟩
  extend := by
    rintro env _ rfl arguments _
    rfl

/-- **Evaluation asks for dice with sides only.** -/
theorem evaluate_asks (env : Environment) (tree : Tree) :
    Asks (1 ≤ ·) (evaluate .standard env tree) :=
  (EvalRelation.asking.eval evaluationLimit rfl trivial : Asks (1 ≤ ·) (eval ..)).adapt _

namespace Session

variable {σ : Type} [Dice σ]

/-- What a line comes to whose expression has the given outcome: a fault is a result, other failures
escape. -/
def reported : Except Failure Value → Except Failure LineResult
  | .ok value => .ok (.value value)
  | .error (.fault mistake) => .ok (.failed mistake)
  | .error failure => .error failure

/-- The computation whose outcome is reported. -/
def reporting (m : Eval Value) : Eval LineResult :=
  ExceptT.mk (m.run >>= fun outcome => .done (reported outcome))

/-- Reporting an outcome asks for nothing more. -/
theorem reporting_asks {P : Int → Prop} {m : Eval Value} (h : Asks P m) : Asks P (reporting m) :=
  Rolling.Asks.bind h fun _ => trivial

theorem play_reporting (m : Eval Value) (dice : σ) :
    (reporting m).play dice = (reported (m.play dice).1, (m.play dice).2) := by
  unfold Eval.play reporting
  rw [ExceptT.run_mk, Rolling.run_bind]
  rcases m.run.run dice with ⟨mishap | outcome, after⟩
  · rfl
  · rfl

/-- An expression is evaluated, and the outcome reported. -/
theorem play_eq_reporting (session : Session σ) (text : String) (tree : Tree) :
    (session.play text tree).outcome =
        ((reporting (evaluate .standard session.env tree)).play session.dice).1 ∧
      (session.play text tree).session = { session with
        dice := ((reporting (evaluate .standard session.env tree)).play session.dice).2 } := by
  unfold play
  rw [play_reporting]
  rcases (evaluate .standard session.env tree).play session.dice with ⟨failure | value, after⟩
  · cases failure <;> exact ⟨rfl, rfl⟩
  · exact ⟨rfl, rfl⟩

/-- **A line is a computation.**  What it comes to and what it asks for is settled before any dice
are chosen, and so is the environment it leaves. -/
theorem exists_computation (session : Session σ) (text : String) :
    ∃ (m : Eval LineResult) (env : Environment), Asks (1 ≤ ·) m ∧
      ∀ dice : σ, ({ session with dice }.runLine text).outcome = (m.play dice).1 ∧
        ({ session with dice }.runLine text).session = ⟨session.fresh, env, (m.play dice).2⟩ := by
  cases hline : Text.isEmptyLine text with
  | true =>
      refine ⟨pure .blank, session.env, asks_pure _, fun dice => ?_⟩
      unfold runLine
      rw [if_pos hline]
      exact ⟨rfl, rfl⟩
  | false =>
      have hrun : ∀ dice, ({ session with dice } : Session σ).runLine text =
          (⟨session.fresh, session.opened.env, dice⟩ : Session σ).runParsed text
            (Line.parse text) := by
        intro dice
        rw [runLine_eq hline]
        cases hfresh : session.fresh <;> simp [opened, reset, hfresh]
      simp only [hrun]
      match Line.parse text with
      | .error (.fault mistake) =>
          exact ⟨pure (.failed mistake), _, asks_pure _, fun dice => ⟨rfl, rfl⟩⟩
      | .error .digitLimit | .error (.notExpression _) | .error .tooDeep | .error (.mishap _)
      | .error .withheld => exact ⟨throw _, _, asks_throw _, fun dice => ⟨rfl, rfl⟩⟩
      | .ok (.program block) =>
          exact ⟨pure (.defined block.forms), session.opened.env.load block, asks_pure _,
            fun dice => ⟨rfl, rfl⟩⟩
      | .ok (.expression tree) =>
          exact ⟨reporting (evaluate .standard session.opened.env tree), _,
            reporting_asks (evaluate_asks _ tree), fun dice => play_eq_reporting _ text tree⟩

/-- The session, with other rolls to come. -/
def facing (session : Session Script) (rolls : List (Option Int)) : Session Script :=
  { session with dice := ⟨rolls, session.dice.asked⟩ }

/-- **Draws depend only on earlier rolls.**  A line makes requests for dice that have a side.

If the script is not exhausted, the line uses one roll for each request and leaves the others.  With
any script that agrees on the rolls that are used, it comes to the same, with the same definitions
and the same requests, and leaves the rest of that script.  With fewer of these rolls, it fails at
the first request that is not met, and there the requests end. -/
theorem runLine_draws (session : Session Script) (text : String) :
    ∃ made : List Int,
      (session.runLine text).session.dice.asked = made.reverse ++ session.dice.asked ∧
      (∀ sides ∈ made, 1 ≤ sides) ∧
      ((session.runLine text).outcome ≠ .error (.mishap .exhausted) →
        made.length ≤ session.dice.ahead.length ∧
        (session.runLine text).session.dice.ahead = session.dice.ahead.drop made.length ∧
        (∀ rolls : List (Option Int),
          rolls.take made.length = session.dice.ahead.take made.length →
            ((session.facing rolls).runLine text).outcome = (session.runLine text).outcome ∧
            ((session.facing rolls).runLine text).session =
              (session.runLine text).session.facing (rolls.drop made.length)) ∧
        ∀ j < made.length,
          ((session.facing (session.dice.ahead.take j)).runLine text).outcome =
              .error (.mishap .exhausted) ∧
            ((session.facing (session.dice.ahead.take j)).runLine text).session.dice =
              ⟨[], (made.take (j + 1)).reverse ++ session.dice.asked⟩) := by
  obtain ⟨m, env, hasks, hline⟩ := session.exists_computation text
  obtain ⟨houtcome, hsession⟩ := hline session.dice
  obtain ⟨made, hasked, hmade, hscript⟩ := hasks.play_script session.dice
  refine ⟨made, ?_, hmade, fun hfinished => ?_⟩
  · rw [hsession]
    exact hasked
  rw [houtcome] at hfinished
  obtain ⟨hlength, hahead, hsame, hshort⟩ := hscript hfinished
  refine ⟨hlength, ?_, fun rolls hrolls => ?_, fun j hj => ?_⟩
  · rw [hsession]
    exact hahead
  · obtain ⟨houtcome', hsession'⟩ := hline ⟨rolls, session.dice.asked⟩
    rw [hsame rolls hrolls] at houtcome' hsession'
    refine ⟨houtcome'.trans houtcome.symm, hsession'.trans ?_⟩
    rw [hsession]
    rfl
  · obtain ⟨houtcome', hsession'⟩ := hline ⟨session.dice.ahead.take j, session.dice.asked⟩
    rw [hshort j hj] at houtcome' hsession'
    exact ⟨houtcome', congrArg Session.dice hsession'⟩

/-- Two dice are asked for.  A third roll may as well be a break, and without the second one its
request is the last. -/
theorem runLine_draws_two_dice :
    ((start false (Script.ofRolls [some 3, some 4, some 9])).runLine "2D6").session.dice.asked =
        [6, 6] ∧
      ((start false (Script.ofRolls [some 3, some 4, none])).runLine "2D6").outcome =
        ((start false (Script.ofRolls [some 3, some 4, some 9])).runLine "2D6").outcome ∧
      ((start false (Script.ofRolls [some 3])).runLine "2D6").outcome =
        .error (.mishap .exhausted) := by
  obtain ⟨made, hasked, -, hscript⟩ :=
    runLine_draws (start false (Script.ofRolls [some 3, some 4, some 9])) "2D6"
  have htwo : ((start false (Script.ofRolls [some 3, some 4, some 9])).runLine
      "2D6").session.dice.asked = [6, 6] := by decide +kernel
  have hok : ((start false (Script.ofRolls [some 3, some 4, some 9])).runLine
      "2D6").outcome.isOk = true := by decide +kernel
  have hmade : made.reverse ++ [] = [6, 6] := hasked.symm.trans htwo
  obtain rfl : made = [6, 6] := by simpa using hmade
  have hfinished : ((start false (Script.ofRolls [some 3, some 4, some 9])).runLine
      "2D6").outcome ≠ .error (.mishap .exhausted) := by
    intro hexhausted
    rw [hexhausted] at hok
    cases hok
  obtain ⟨-, -, hsame, hshort⟩ := hscript hfinished
  exact ⟨htwo, (hsame [some 3, some 4, none] rfl).1, (hshort 1 (by decide)).1⟩

end Session

end DiceLang
