import DiceLang.Rolling

/-!
# Playing computations

How a computation that may fail is played against dice: `Eval.play_bind` says that a sequence is
played one part after the other, and that its first failure ends it.

Two computations are compared by playing them.  `Eval.Follows lost` says that one does whatever the
other does, failures and draws included, unless the other ends in a failure that is given up for
lost.  The relation is kept by putting computations in sequence, so an evaluator is compared with
another one construct at a time.

`Eval.Raises P` says that a computation fails in no way but those of `P`, as long as the dice do not
fail, and `Dice.Reliable` that these never do.
-/

namespace DiceLang

section Play

variable {α β : Type} {σ : Type} [Dice σ]

/-- Two steps with the dice are taken one after the other, and the second not at all if the dice have
failed. -/
theorem Rolling.run_bind (m : Rolling α) (f : α → Rolling β) (dice : σ) :
    (m >>= f).run dice =
      match m.run dice with
      | (.ok result, after) => (f result).run after
      | (.error mishap, after) => (.error mishap, after) := by
  induction m generalizing dice with
  | done result => rfl
  | draw sides next ih =>
      rw [Rolling.draw_bind]
      simp only [Rolling.run]
      rcases Dice.draw sides dice with ⟨roll | mishap, after⟩
      · rfl
      · exact ih _ after

namespace Eval

/-- **Playing a sequence.**  The second part is played with the dice that the first one leaves, and
not at all if the first one fails. -/
theorem play_bind (m : Eval α) (f : α → Eval β) (dice : σ) :
    (m >>= f).play dice =
      match m.play dice with
      | (.ok a, after) => (f a).play after
      | (.error failure, after) => (.error failure, after) := by
  unfold play
  rw [ExceptT.run_bind, Rolling.run_bind]
  rcases m.run.run dice with ⟨mishap | failure | a, after⟩ <;> rfl

/-- What is done to the failures of a computation is done to those that it is played to. -/
theorem play_adapt (g : Failure → Failure) (hmishap : ∀ reason, g (.mishap reason) = .mishap reason)
    (m : Eval α) (dice : σ) :
    play (ExceptT.adapt g m) dice = ((m.play dice).1.mapError g, (m.play dice).2) := by
  unfold play
  rw [ExceptT.run_adapt, ← bind_pure_comp, Rolling.run_bind]
  rcases m.run.run dice with ⟨mishap | failure | a, after⟩
  · show (Except.error (.mishap mishap), after) = (Except.error (g (.mishap mishap)), after)
    rw [hmishap]
  · rfl
  · rfl

end Eval

end Play

namespace Eval

variable {α β : Type} {lost : Failure → Prop}

/-- `m'` does what `m` does, whatever the dice, unless `m` ends in a failure that is `lost`. -/
def Follows (lost : Failure → Prop) (m m' : Eval α) : Prop :=
  ∀ (σ : Type) [Dice σ] (dice : σ),
    m'.play dice = m.play dice ∨ ∃ failure, (m.play dice).1 = .error failure ∧ lost failure

/-- Every computation follows itself. -/
theorem Follows.refl (m : Eval α) : Follows lost m m := fun _ _ _ => .inl rfl

theorem follows_throw {failure : Failure} (h : lost failure) (m : Eval α) :
    Follows lost (throw failure) m := fun _ _ _ => .inr ⟨failure, rfl, h⟩

/-- Sequences follow each other if their parts do. -/
theorem Follows.bind {m m' : Eval α} {f f' : α → Eval β} (h : Follows lost m m')
    (hf : ∀ a, Follows lost (f a) (f' a)) : Follows lost (m >>= f) (m' >>= f') := by
  intro σ _ dice
  rw [play_bind, play_bind]
  rcases h σ dice with hsame | ⟨failure, hfailure, hlost⟩
  · rw [hsame]
    rcases m.play dice with ⟨failure | a, after⟩
    · exact .inl rfl
    · exact hf a σ after
  · right
    generalize m.play dice = played at hfailure
    obtain ⟨outcome, after⟩ := played
    subst hfailure
    exact ⟨failure, rfl, hlost⟩

/-- A value that is come to is come to by what follows, with the same draws. -/
theorem Follows.play_eq_ok {m m' : Eval α} (h : Follows lost m m') {σ : Type} [Dice σ]
    {dice after : σ} {a : α} (hplay : m.play dice = (.ok a, after)) :
    m'.play dice = (.ok a, after) := by
  rcases h σ dice with hsame | ⟨failure, hfailure, -⟩
  · rw [hsame, hplay]
  · rw [hplay] at hfailure
    cases hfailure

end Eval

/-- What holds of every result that a computation may be done with, whatever comes up. -/
def Rolling.All {α : Type} (P : α → Prop) : Rolling α → Prop
  | done result => P result
  | draw _ next => ∀ roll, (next roll).All P

/-- What holds of the outcomes of two steps holds of both in a row. -/
theorem Rolling.All.bind {α β : Type} {P : α → Prop} {Q : β → Prop} {m : Rolling α}
    {f : α → Rolling β} (h : m.All P) (hf : ∀ a, P a → (f a).All Q) : (m >>= f).All Q := by
  induction m with
  | done a => exact hf a h
  | draw sides next ih => exact fun roll => ih roll (h roll)

/-- What holds of all outcomes may be weakened. -/
theorem Rolling.All.imp {α : Type} {P Q : α → Prop} {m : Rolling α} (h : m.All P)
    (himp : ∀ a, P a → Q a) : m.All Q := by
  induction m with
  | done a => exact himp a h
  | draw sides next ih => exact fun roll => ih roll (h roll)

/-- What a computation is done with when it is played has the property. -/
theorem Rolling.All.of_run_ok {α : Type} {P : α → Prop} {m : Rolling α} (h : m.All P) {σ : Type}
    [Dice σ] (dice : σ) : ∀ a, (m.run dice).1 = .ok a → P a := by
  intro a ha
  induction m generalizing dice with
  | done result =>
      cases ha
      exact h
  | draw sides next ih =>
      simp only [Rolling.run] at ha
      split at ha
      · next roll after _ => exact ih roll (h roll) after ha
      · cases ha

/-- Draws of such dice never fail. -/
def Dice.Reliable (σ : Type) [Dice σ] : Prop :=
  ∀ (sides : Int) (dice : σ), ∃ roll, (Dice.draw sides dice).1 = .ok roll

/-- On reliable dice there is an outcome, of which it holds. -/
theorem Rolling.All.run {α : Type} {P : α → Prop} {m : Rolling α} (h : m.All P) {σ : Type}
    [Dice σ] (hdice : Dice.Reliable σ) (dice : σ) : ∃ a, (m.run dice).1 = .ok a ∧ P a := by
  induction m generalizing dice with
  | done a => exact ⟨a, rfl, h⟩
  | draw sides next ih =>
      obtain ⟨roll, hroll⟩ := hdice sides dice
      simp only [Rolling.run]
      generalize Dice.draw sides dice = drawn at hroll
      obtain ⟨outcome, after⟩ := drawn
      subst hroll
      exact ih roll (h roll) after

namespace Eval

variable {α β : Type} {P Q : Failure → Prop}

/-- The failures of a computation, apart from those of the dice, are among those of `P`. -/
def Raises (P : Failure → Prop) (m : Eval α) : Prop :=
  m.run.All fun
    | .ok _ => True
    | .error failure => P failure

theorem raises_pure (a : α) : Raises P (pure a : Eval α) := trivial

theorem raises_throw {failure : Failure} (h : P failure) : Raises P (throw failure : Eval α) := h

/-- The failures may be said to be among more. -/
theorem Raises.imp {m : Eval α} (h : Raises P m) (himp : ∀ failure, P failure → Q failure) :
    Raises Q m := by
  refine Rolling.All.imp h ?_
  rintro (failure | a) houtcome
  · exact himp failure houtcome
  · trivial

/-- Two steps raise what either of them raises. -/
theorem Raises.bind {m : Eval α} {f : α → Eval β} (h : Raises P m) (hf : ∀ a, Raises P (f a)) :
    Raises P (m >>= f) := by
  unfold Raises
  rw [ExceptT.run_bind]
  refine Rolling.All.bind h ?_
  rintro (failure | a) houtcome
  · exact houtcome
  · exact hf a

/-- When failures are rewritten, what is raised is rewritten. -/
theorem Raises.adapt {m : Eval α} {g : Failure → Failure} (h : Raises P m)
    (hg : ∀ failure, P failure → Q (g failure)) : Raises Q (ExceptT.adapt g m) := by
  unfold Raises
  rw [ExceptT.run_adapt, ← bind_pure_comp]
  refine Rolling.All.bind h ?_
  rintro (failure | a) houtcome
  · exact hg failure houtcome
  · trivial

theorem raises_lift (m : Rolling α) : Raises P (ExceptT.lift m : Eval α) := by
  unfold Raises
  rw [ExceptT.run_lift, ← bind_pure_comp]
  have hall : m.All fun _ => True := by
    induction m with
    | done a => trivial
    | draw sides next ih => exact ih
  exact hall.bind fun a _ => trivial

/-- Only the failures of the computation itself and those of the dice can end it. -/
theorem Raises.play_or_mishap {m : Eval α} (h : Raises P m) {σ : Type} [Dice σ] {dice : σ}
    {failure : Failure} (hfailure : (m.play dice).1 = .error failure) :
    P failure ∨ ∃ reason, failure = .mishap reason := by
  have hrun := Rolling.All.of_run_ok h dice
  unfold Eval.play at hfailure
  generalize m.run.run dice = played at hrun hfailure
  obtain ⟨mishap | outcome, after⟩ := played
  · cases hfailure
    exact .inr ⟨mishap, rfl⟩
  · cases hfailure
    exact .inl (hrun _ rfl)

/-- With reliable dice only the failures of the computation itself can end it. -/
theorem Raises.play {m : Eval α} (h : Raises P m) {σ : Type} [Dice σ] (hdice : Dice.Reliable σ)
    {dice : σ} {failure : Failure} (hfailure : (m.play dice).1 = .error failure) : P failure := by
  obtain ⟨outcome, hrun, houtcome⟩ := Rolling.All.run h hdice dice
  unfold Eval.play at hfailure
  generalize m.run.run dice = played at hrun hfailure
  obtain ⟨result, after⟩ := played
  subst hrun
  cases hfailure
  exact houtcome

end Eval

end DiceLang
