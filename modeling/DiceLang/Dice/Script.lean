import DiceLang.Rolling

/-!
# Dice that follow a script

The rolls are laid out beforehand and come up in that order, whatever is asked for.  Each may also
be a break, where the player interrupts.  The dice remember what they were asked for, the request
that could not be met included.

`Rolling.Plays` tells how a computation is played with a script: the rolls it uses, the requests it
makes and what it comes to.  A computation that is played so comes to the same whatever else is on
the script (`Plays.run`), and finds the script too short if any of these rolls is missing
(`Plays.run_take`).
-/

namespace DiceLang

/-- Rolls that are laid out beforehand. -/
structure Script where
  /-- The rolls to come; `none` is a break. -/
  ahead : List (Option Int)
  /-- The numbers of sides that were asked for, the latest first. -/
  asked : List Int

namespace Script

/-- The script with the given rolls, of which nothing has been asked yet. -/
def ofRolls (rolls : List (Option Int)) : Script := ⟨rolls, []⟩

/-- Takes the next roll of the script and notes the request. -/
def draw (sides : Int) (script : Script) : Except Mishap Int × Script :=
  match script.ahead with
  | [] => (.error .exhausted, ⟨[], sides :: script.asked⟩)
  | none :: rest => (.error .interrupted, ⟨rest, sides :: script.asked⟩)
  | some roll :: rest => (.ok roll, ⟨rest, sides :: script.asked⟩)

instance : Dice Script := ⟨draw⟩

end Script

namespace Rolling

variable {α : Type}

/-- A computation uses up some rolls of a script, with a request for each, and then it is over: it
is done, or the last roll is a break. -/
inductive Plays : Rolling α → List (Option Int) → List Int → Except Mishap α → Prop
  | done (a : α) : Plays (done a) [] [] (.ok a)
  | rolled {sides roll : Int} {next : Int → Rolling α} {used : List (Option Int)} {made : List Int}
      {outcome : Except Mishap α} (h : Plays (next roll) used made outcome) :
      Plays (draw sides next) (some roll :: used) (sides :: made) outcome
  | broken (sides : Int) (next : Int → Rolling α) :
      Plays (draw sides next) [none] [sides] (.error .interrupted)

variable {m : Rolling α} {used : List (Option Int)} {made : List Int} {outcome : Except Mishap α}

/-- As many rolls are used as there are requests. -/
theorem Plays.length_eq (h : m.Plays used made outcome) : used.length = made.length := by
  induction h with
  | done a => rfl
  | rolled _ ih => simp [ih]
  | broken sides next => rfl

/-- **What is not asked for makes no difference.** -/
theorem Plays.run (h : m.Plays used made outcome) (rest : List (Option Int)) (before : List Int) :
    m.run (⟨used ++ rest, before⟩ : Script) = (outcome, ⟨rest, made.reverse ++ before⟩) := by
  induction h generalizing before with
  | done a => rfl
  | rolled _ ih =>
      rw [List.reverse_cons, List.append_assoc]
      exact ih _
  | broken sides next => rfl

/-- **Every roll that is asked for is needed.**  Without it the request for it is the last. -/
theorem Plays.run_take (h : m.Plays used made outcome) {j : Nat} (hj : j < made.length)
    (before : List Int) :
    m.run (⟨used.take j, before⟩ : Script) =
      (.error .exhausted, ⟨[], (made.take (j + 1)).reverse ++ before⟩) := by
  induction h generalizing j before with
  | done a => simp at hj
  | @rolled sides roll next used made outcome _ ih =>
      cases j with
      | zero => rfl
      | succ j =>
          rw [List.take_succ_cons, List.take_succ_cons, List.reverse_cons, List.append_assoc]
          exact ih (Nat.lt_of_succ_lt_succ hj) _
  | broken sides next =>
      obtain rfl : j = 0 := by simpa using hj
      rfl

/-- A script that is not exhausted begins with the rolls that are used. -/
theorem exists_plays {rolls : List (Option Int)} {before : List Int}
    (h : (m.run (⟨rolls, before⟩ : Script)).1 ≠ .error .exhausted) :
    ∃ used rest made outcome, rolls = used ++ rest ∧ m.Plays used made outcome := by
  induction m generalizing rolls before with
  | done a => exact ⟨[], rolls, [], .ok a, rfl, .done a⟩
  | draw sides next ih =>
      match rolls with
      | [] => exact absurd rfl h
      | none :: rolls => exact ⟨[none], rolls, [sides], _, rfl, .broken sides next⟩
      | some roll :: rolls =>
          obtain ⟨used, rest, made, outcome, rfl, hplays⟩ := ih roll h
          exact ⟨some roll :: used, rest, sides :: made, outcome, rfl, .rolled hplays⟩

end Rolling

end DiceLang
