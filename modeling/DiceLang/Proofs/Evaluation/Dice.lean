import DiceLang.Dice.Script
import DiceLang.Proofs.Evaluation.Outcome
import DiceLang.Proofs.Evaluation.Typing

/-!
# What a roll of dice asks for

A call of dice evaluates its two operands, one after the other, and then draws as many rolls as the
first one says of a die with as many sides as the second one says.  `Dice.draws` is that run of draws,
said of the dice alone.

The sum is built up roll by roll, so the loop is followed with a running total: `run_rollSum` says
that it comes to the total and the rolls that are drawn.  `rollSum_add` splits the loop in two, and
with it a roll of many dice is a roll of some and then of the others.

`dice_call_draws` puts this together for all calls of dice, wherever they stand and whatever comes up.
-/

namespace DiceLang

namespace Dice

variable {σ : Type} [Dice σ] {sides : Int} {count : Nat} {dice last : σ} {rolls : List Int}

/-- Draws so many rolls of a die, one after the other, up to the first that fails. -/
def draws (sides : Int) : Nat → σ → Except Mishap (List Int) × σ
  | 0, dice => (.ok [], dice)
  | count + 1, dice =>
    match Dice.draw sides dice with
    | (.error mishap, after) => (.error mishap, after)
    | (.ok roll, after) => ((draws sides count after).1.map (roll :: ·), (draws sides count after).2)

/-- The rolls that are drawn are as many as were asked for. -/
theorem length_of_draws (h : draws sides count dice = (.ok rolls, last)) :
    rolls.length = count := by
  induction count generalizing dice rolls with
  | zero =>
      cases h
      rfl
  | succ count ih =>
      rw [draws] at h
      split at h
      · cases h
      · next roll after _ =>
          obtain ⟨hrolls, rfl⟩ := Prod.mk.inj h
          obtain ⟨others, hothers, rfl⟩ := map_eq_ok hrolls
          rw [List.length_cons, ih (Prod.ext hothers rfl)]

/-- Rolls that are on the die add up to at least one and at most all sides for each of them. -/
theorem sum_bounds (h : ∀ roll ∈ rolls, 1 ≤ roll ∧ roll ≤ sides) :
    (rolls.length : Int) ≤ rolls.sum ∧ rolls.sum ≤ rolls.length * sides := by
  induction rolls with
  | nil => simp
  | cons roll rolls ih =>
      obtain ⟨hroll, hothers⟩ := List.forall_mem_cons.mp h
      obtain ⟨hlow, hhigh⟩ := ih hothers
      rw [List.sum_cons, List.length_cons, Nat.cast_succ, add_mul, one_mul]
      omega

end Dice

section Sums

variable {σ : Type} [Dice σ]

/-- **The loop.**  With any running total, the sum comes to that total and the rolls that are drawn,
and ends where the draws end. -/
theorem run_rollSum (sides : Int) (count : Nat) (total : Int) (dice : σ) :
    (rollSum sides count total).run dice =
      ((Dice.draws sides count dice).1.map (total + ·.sum), (Dice.draws sides count dice).2) := by
  induction count generalizing total dice with
  | zero =>
      show (Except.ok total, dice) = (Except.ok (total + 0), dice)
      rw [add_zero]
  | succ count ih =>
      simp only [rollSum, Rolling.run, Dice.draws]
      rcases Dice.draw sides dice with ⟨mishap | roll, after⟩
      · rfl
      · dsimp only
        rw [ih]
        rcases (Dice.draws sides count after).1 with mishap | others
        · rfl
        · simp [Except.map, add_assoc]

/-- What is on top of the running total does not change what is drawn. -/
theorem rollSum_total (sides : Int) (count : Nat) (base total : Int) :
    rollSum sides count (base + total) =
      rollSum sides count total >>= fun sum => .done (base + sum) := by
  induction count generalizing total with
  | zero => rfl
  | succ count ih =>
      simp only [rollSum, Rolling.draw_bind]
      congr 1
      funext roll
      rw [add_assoc, ih]

/-- **Splitting a sum.**  Some rolls and then others are all of them. -/
theorem rollSum_add (sides : Int) (first second : Nat) (total : Int) :
    rollSum sides (first + second) total =
      rollSum sides first total >>= fun sum => rollSum sides second sum := by
  induction first generalizing total with
  | zero => rw [Nat.zero_add, rollSum, Rolling.done_bind]
  | succ first ih =>
      rw [Nat.succ_add, rollSum, rollSum, Rolling.draw_bind]
      congr 1
      funext roll
      exact ih _

end Sums

/-- The complaint about dice that cannot be rolled.  It is lost if its numbers are too long to be
written. -/
def Failure.ofDice (count sides : Int) (span : Option Span) : Failure :=
  if Text.isWritable count && Text.isWritable sides then .ofCause (.invalidDice count sides) span
  else .digitLimit

/-- Small numbers can be written, so that dice with them are refused as such. -/
theorem Failure.ofDice_of_small (count sides : Nat) (hcount : count ≤ Text.digitLimit)
    (hsides : sides ≤ Text.digitLimit) (span : Option Span) :
    Failure.ofDice count sides span = .ofCause (.invalidDice count sides) span := by
  have hpower : ∀ n digits : Nat, n ≤ digits → n < Nat.pow 10 digits := fun n digits hn =>
    Nat.lt_of_le_of_lt hn (Nat.lt_pow_self (by decide))
  have hwritable : ∀ n : Nat, n ≤ Text.digitLimit → Text.isWritable n = true := fun n hn =>
    decide_eq_true (hpower n _ hn)
  unfold ofDice
  rw [hwritable count hcount, hwritable sides hsides]
  rfl

/-- A refusal of dice that points nowhere can be pointed anywhere. -/
theorem Failure.orAt_ofDice (count sides : Int) (span : Option Span) :
    (Failure.ofDice count sides none).orAt span = .ofDice count sides span := by
  unfold ofDice
  split <;> rfl

section Rolls

variable {count sides : Int}

/-- Fewer than no dice, or dice without sides, are refused. -/
theorem roll_of_invalid (h : count < 0 ∨ sides < 1) :
    roll count sides = throw (.ofDice count sides none) := by
  unfold roll
  rw [if_pos (by simpa using h)]
  rfl

/-- All other dice are rolled. -/
theorem roll_of_valid (hcount : 0 ≤ count) (hsides : 1 ≤ sides) :
    roll count sides = ExceptT.lift (rollSum sides count.toNat 0) := by
  unfold roll
  rw [if_neg]
  simp only [Bool.or_eq_true, decide_eq_true_eq]
  omega

/-- A roll comes to the sum of its draws, and ends where they end. -/
theorem play_roll {σ : Type} [Dice σ] (hcount : 0 ≤ count) (hsides : 1 ≤ sides) (dice : σ) :
    (roll count sides).play dice =
      match Dice.draws sides count.toNat dice with
      | (.ok rolls, last) => (.ok rolls.sum, last)
      | (.error mishap, last) => (.error (.mishap mishap), last) := by
  rw [roll_of_valid hcount hsides]
  unfold Eval.play
  rw [ExceptT.run_lift, ← bind_pure_comp, Rolling.run_bind, run_rollSum]
  rcases Dice.draws sides count.toNat dice with ⟨mishap | rolls, last⟩
  · rfl
  · simp [Except.map, Rolling.run]

/-- **Splitting a roll.**  Rolling some dice and then others is rolling all of them. -/
theorem roll_add {first second : Int} (hfirst : 0 ≤ first) (hsecond : 0 ≤ second)
    (hsides : 1 ≤ sides) :
    roll (first + second) sides = (do
      let part ← roll first sides
      let others ← roll second sides
      pure (part + others)) := by
  have hboth : 0 ≤ first + second := by omega
  rw [roll_of_valid hboth hsides, roll_of_valid hfirst hsides, roll_of_valid hsecond hsides,
    Int.toNat_add hfirst hsecond, rollSum_add]
  apply ExceptT.ext
  simp only [ExceptT.run_lift, ExceptT.run_bind, ExceptT.run_pure, ← bind_pure_comp, bind_assoc,
    pure_bind]
  refine bind_congr fun sum => ?_
  have htotal := rollSum_total sides second.toNat sum 0
  rw [add_zero] at htotal
  rw [htotal, bind_assoc]
  rfl

end Rolls

/-- A call of dice with two operands, in either spelling. -/
inductive Tree.CallsDice : Tree → Tree → Tree → Prop
  | infixed {name : String} (hname : name ∈ diceNames) (lhs rhs : Tree) (span : Option Span) :
      CallsDice (.infixed name lhs rhs span) lhs rhs
  | call {name : String} (hname : name ∈ diceNames) (lhs rhs : Tree) (span : Option Span) :
      CallsDice (.call name [lhs, rhs] span) lhs rhs

/-- What it means that a computation rolls the dice that two others ask for. -/
structure RollsDice (lhs rhs : Eval Int) (span : Option Span) (whole : Eval Value) : Prop where
  /-- The left operand comes first, and if it fails there is nothing else. -/
  left : ∀ {σ : Type} [Dice σ] {dice after : σ} {failure : Failure},
    lhs.play dice = (.error failure, after) → whole.play dice = (.error failure, after)
  /-- The right operand follows with the dice as they are then. -/
  right : ∀ {σ : Type} [Dice σ] {dice between after : σ} {count : Int} {failure : Failure},
    lhs.play dice = (.ok count, between) → rhs.play between = (.error failure, after) →
      whole.play dice = (.error failure, after)
  /-- Dice that cannot be rolled are refused, and nothing is drawn for them. -/
  refused : ∀ {σ : Type} [Dice σ] {dice between after : σ} {count sides : Int},
    lhs.play dice = (.ok count, between) → rhs.play between = (.ok sides, after) →
      (count < 0 ∨ sides < 1) → whole.play dice = (.error (.ofDice count sides span), after)
  /-- All others are drawn, as many as there are, and their sum is the value.  If none of them is off
  the die, it is at least their number and at most so many times the sides. -/
  rolled : ∀ {σ : Type} [Dice σ] {dice between after last : σ} {count sides : Int}
      {rolls : List Int},
    lhs.play dice = (.ok count, between) → rhs.play between = (.ok sides, after) →
      0 ≤ count → 1 ≤ sides → Dice.draws sides count.toNat after = (.ok rolls, last) →
        whole.play dice = (.ok (.integer rolls.sum), last) ∧ (rolls.length : Int) = count ∧
        ((∀ roll ∈ rolls, 1 ≤ roll ∧ roll ≤ sides) →
          count ≤ rolls.sum ∧ rolls.sum ≤ count * sides)
  /-- A draw that fails ends it. -/
  broken : ∀ {σ : Type} [Dice σ] {dice between after last : σ} {count sides : Int}
      {mishap : Mishap},
    lhs.play dice = (.ok count, between) → rhs.play between = (.ok sides, after) →
      0 ≤ count → 1 ≤ sides → Dice.draws sides count.toNat after = (.error mishap, last) →
        whole.play dice = (.error (.mishap mishap), last)

section Calls

variable {lhs rhs : Eval Int} {span : Option Span} {whole : Eval Value}

/-- Two operands and a roll, one after the other. -/
theorem rollsDice_of_eq (h : whole = lhs >>= fun count => rhs >>= fun sides =>
      ExceptT.adapt (Failure.orAt span) (roll count sides) >>= fun n => pure (.integer n)) :
    RollsDice lhs rhs span whole := by
  subst h
  have hoperands : ∀ {σ : Type} [Dice σ] {dice between after : σ} {count sides : Int},
      lhs.play dice = (.ok count, between) → rhs.play between = (.ok sides, after) →
      (lhs >>= fun count => rhs >>= fun sides =>
        ExceptT.adapt (Failure.orAt span) (roll count sides) >>= fun n =>
          pure (Value.integer n)).play dice =
      (((((roll count sides).play after).1.mapError (Failure.orAt span)).map Value.integer),
        ((roll count sides).play after).2) := by
    intro σ _ dice between after count sides hlhs hrhs
    rw [Eval.play_bind, hlhs]
    dsimp only
    rw [Eval.play_bind, hrhs]
    dsimp only
    rw [Eval.play_bind, Eval.play_adapt _ (fun _ => rfl)]
    rcases (roll count sides).play after with ⟨failure | n, last⟩ <;> rfl
  refine ⟨?_, ?_, ?_, ?_, ?_⟩
  · intro σ _ dice after failure hlhs
    rw [Eval.play_bind, hlhs]
  · intro σ _ dice between after count failure hlhs hrhs
    rw [Eval.play_bind, hlhs]
    dsimp only
    rw [Eval.play_bind, hrhs]
  · intro σ _ dice between after count sides hlhs hrhs hinvalid
    rw [hoperands hlhs hrhs, roll_of_invalid hinvalid, ← Failure.orAt_ofDice count sides span]
    generalize Failure.ofDice count sides none = failure
    rfl
  · intro σ _ dice between after last count sides rolls hlhs hrhs hcount hsides hdraws
    have hlength : (rolls.length : Int) = count := by
      rw [Dice.length_of_draws hdraws]
      omega
    refine ⟨?_, hlength, fun hrolls => hlength ▸ Dice.sum_bounds hrolls⟩
    rw [hoperands hlhs hrhs, play_roll hcount hsides, hdraws]
    rfl
  · intro σ _ dice between after last count sides mishap hlhs hrhs hcount hsides hdraws
    rw [hoperands hlhs hrhs, play_roll hcount hsides, hdraws]
    rfl

/-- A roll is never too deep. -/
theorem adapt_blame_roll (span : Option Span) (count sides : Int) :
    ExceptT.adapt (Failure.blame span)
        (ExceptT.adapt (Failure.orAt span) (roll count sides) : Eval Int) =
      (ExceptT.adapt (Failure.orAt span) (roll count sides) : Eval Int) := by
  by_cases hvalid : count < 0 ∨ sides < 1
  · rw [roll_of_invalid hvalid, adapt_throw, adapt_throw, Failure.orAt_ofDice]
    unfold Failure.ofDice
    split <;> rfl
  · rw [roll_of_valid (by omega) (by omega), adapt_lift, adapt_lift]

end Calls

/-- **A call of dice draws exactly what it says**, within any budget and as a whole expression.  The
operands are evaluated in turn, once each; then as many rolls are drawn as the first one says, of a die
with as many sides as the second one says, and their sum is the value; or if there are no such dice,
the call is refused (E205) and nothing more is drawn.

Rolling some dice and then others, with the totals added, is rolling all of them at once.  If the dice
have no sides, either of the two is refused at once. -/
theorem dice_call_draws (env : Environment) {tree lhs rhs : Tree} (h : tree.CallsDice lhs rhs) :
    (∀ budget : Nat,
      RollsDice (evalInteger (eval .standard budget env) lhs)
        (evalInteger (eval .standard budget env) rhs) tree.span?
        (eval .standard (budget + 1) env tree)) ∧
    (∃ budget : Nat, evaluationLimit = budget + 1 ∧
      RollsDice
        (ExceptT.adapt (Failure.blame tree.span?) (evalInteger (eval .standard budget env) lhs))
        (ExceptT.adapt (Failure.blame tree.span?) (evalInteger (eval .standard budget env) rhs))
        tree.span? (evaluate .standard env tree)) ∧
    ∀ first second sides : Int, 0 ≤ first → 0 ≤ second →
      (1 ≤ sides → roll (first + second) sides = (do
        let part ← roll first sides
        let others ← roll second sides
        pure (part + others))) ∧
      (sides < 1 → roll (first + second) sides = throw (.ofDice (first + second) sides none) ∧
        (do
          let part ← roll first sides
          let others ← roll second sides
          pure (part + others)) = (throw (.ofDice first sides none) : Eval Int)) := by
  have hcall : ∀ budget : Nat, eval .standard (budget + 1) env tree =
      evalInteger (eval .standard budget env) lhs >>= fun count =>
      evalInteger (eval .standard budget env) rhs >>= fun sides =>
      ExceptT.adapt (Failure.orAt tree.span?) (roll count sides) >>= fun n =>
      pure (.integer n) := by
    intro budget
    cases h with
    | infixed hname => exact eval_roll hname rfl rfl budget env
    | call hname => exact eval_roll hname rfl rfl budget env
  refine ⟨fun budget => rollsDice_of_eq (hcall budget), ⟨399, rfl, rollsDice_of_eq ?_⟩, ?_⟩
  · unfold evaluate evaluateWithin evaluationLimit
    rw [hcall 399, adapt_bind]
    refine bind_congr fun count => ?_
    rw [adapt_bind]
    refine bind_congr fun sides => ?_
    rw [adapt_bind, adapt_blame_roll]
    rfl
  · intro first second sides hfirst hsecond
    refine ⟨roll_add hfirst hsecond, fun hsides => ⟨roll_of_invalid (.inr hsides), ?_⟩⟩
    rw [roll_of_invalid (.inr hsides)]
    rfl

/-- As many dice with six sides as two dice with two sides come to. -/
theorem dice_call_draws_counted_by_dice :
    let dice : Tree := .infixed "d" (.integer 2 none) (.integer 2 none) none
    let rolls : List Int := [6, 1, 5]
    (eval .standard 3 .empty (.call "D" [dice, .integer 6 none] none)).play
        (Script.ofRolls [some 1, some 2, some 6, some 1, some 5]) =
      (.ok (.integer rolls.sum), ⟨[], [6, 6, 6, 2, 2]⟩) ∧
    (rolls.length : Int) = 3 ∧
    ((∀ roll ∈ rolls, 1 ≤ roll ∧ roll ≤ 6) → 3 ≤ rolls.sum ∧ rolls.sum ≤ 3 * 6) :=
  ((dice_call_draws .empty (.call (by decide) _ _ none)).1 2).rolled
    rfl rfl (by decide) (by decide) rfl

/-- Where dice have no sides it matters whether they are rolled at once: two of them are refused as two,
and one after the other as one. -/
theorem sideless_dice_told_apart :
    roll (1 + 1) 0 ≠ (do
      let part ← roll 1 0
      let others ← roll 1 0
      pure (part + others) : Eval Int) := by
  intro hsame
  have htwo : Failure.ofDice (1 + 1) 0 none = .ofCause (.invalidDice 2 0) none :=
    Failure.ofDice_of_small 2 0 (by decide) (by decide) none
  have hone : Failure.ofDice 1 0 none = .ofCause (.invalidDice 1 0) none :=
    Failure.ofDice_of_small 1 0 (by decide) (by decide) none
  rw [roll_of_invalid (.inr (by decide)), roll_of_invalid (.inr (by decide)), htwo, hone] at hsame
  have hplayed := congrArg (fun m : Eval Int => (m.play (Script.ofRolls [])).1) hsame
  cases hplayed

end DiceLang
