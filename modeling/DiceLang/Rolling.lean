import DiceLang.Fault

/-!
# Rolling dice

A `Rolling` is a computation that may ask for rolls of dice: it is either done, or it asks for one
roll and goes on in a way that may depend on what comes up.  It does not say where rolls come from.

`Dice` are where they come from: a state from which rolls are drawn, one after the other.
`Rolling.run` plays a computation against dice.  What a computation asks for, and what it does with
the answers, is thus settled before any dice are chosen.
-/

namespace DiceLang

/-- A computation that may ask for rolls. -/
inductive Rolling (α : Type) : Type
  | done (result : α)
  /-- Asks for the roll of a die with so many sides. -/
  | draw (sides : Int) (next : Int → Rolling α)

namespace Rolling

variable {α β γ : Type}

/-- One computation after another. -/
def bind : Rolling α → (α → Rolling β) → Rolling β
  | done result, f => f result
  | draw sides next, f => draw sides fun roll => (next roll).bind f

instance : Monad Rolling where
  pure := done
  bind := bind

@[simp] theorem pure_eq (a : α) : (pure a : Rolling α) = done a := rfl

@[simp] theorem done_bind (a : α) (f : α → Rolling β) : done a >>= f = f a := rfl

@[simp] theorem draw_bind (sides : Int) (next : Int → Rolling α) (f : α → Rolling β) :
    draw sides next >>= f = draw sides fun roll => next roll >>= f := rfl

/-- Nothing need be done after a computation. -/
theorem bind_done (m : Rolling α) : m >>= done = m := by
  induction m with
  | done a => rfl
  | draw sides next ih => simp [ih]

/-- It makes no difference which two of three computations are put together first. -/
theorem bind_assoc (m : Rolling α) (f : α → Rolling β) (g : β → Rolling γ) :
    m >>= f >>= g = m >>= fun a => f a >>= g := by
  induction m with
  | done a => rfl
  | draw sides next ih => simp [ih]

instance : LawfulMonad Rolling :=
  LawfulMonad.mk' Rolling (fun m => bind_done m) (fun _ _ => rfl) bind_assoc

end Rolling

/-- A state from which rolls are drawn.  A draw that fails changes the state like any other. -/
class Dice (σ : Type) where
  draw : (sides : Int) → σ → Except Mishap Int × σ

namespace Rolling

variable {α : Type} {σ : Type} [Dice σ]

/-- Plays a computation against dice, until it is done or a draw fails. -/
def run : Rolling α → σ → Except Mishap α × σ
  | done result, dice => (.ok result, dice)
  | draw sides next, dice =>
    match Dice.draw sides dice with
    | (.ok roll, dice) => (next roll).run dice
    | (.error mishap, dice) => (.error mishap, dice)

end Rolling

/-- A computation that may ask for rolls, and that may fail. -/
abbrev Eval (α : Type) : Type := ExceptT Failure Rolling α

namespace Eval

variable {α : Type} {σ : Type} [Dice σ]

/-- Plays a computation against dice. -/
def play (computation : Eval α) (dice : σ) : Except Failure α × σ :=
  match computation.run.run dice with
  | (.ok result, dice) => (result, dice)
  | (.error mishap, dice) => (.error (.mishap mishap), dice)

end Eval

/-- Adds up so many rolls of a die, on top of a running total. -/
def rollSum (sides : Int) : (count : Nat) → (total : Int) → Rolling Int
  | 0, total => .done total
  | count + 1, total => .draw sides fun roll => rollSum sides count (total + roll)

/-- The sum of `count` rolls of a die with `sides` sides.  There must not be fewer than no dice,
and a die needs a side; the complaint is lost if its numbers are too long to be written. -/
def roll (count sides : Int) : Eval Int :=
  if count < 0 || sides < 1 then
    throw (if Text.isWritable count && Text.isWritable sides then
      .ofCause (.invalidDice count sides) none else .digitLimit)
  else
    ExceptT.lift (rollSum sides count.toNat 0)

end DiceLang
