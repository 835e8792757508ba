import DiceLang.Dice.Script
import DiceLang.Proofs.Limits
import DiceLang.Proofs.Tree.Calls
import Mathlib.Data.Rat.Floor

/-!
# Types of dice arithmetic

Expressions of numbers, arithmetic, comparisons and rolls of dice have types that can be told without
evaluating them: `Tree.type?`.  An expression with a type evaluates to a value of that type, unless
something is divided by zero or dice cannot be rolled; an expression without one never evaluates to a
value.  `types_foretell` says so, and more for expressions without dice and without a divisor that is
zero: they evaluate to what they mean in exact arithmetic (`Tree.meaning`), where a quotient is that of
rational numbers, cut off towards zero.

The proof follows the evaluation of an expression and looks at every way in which it may end, whatever
the dice: `eval_foretold`.  Which of several failures comes first is left open by the types, so
`Foretold` allows for all of them.
-/

namespace DiceLang

/-- The names under which dice are built in. -/
def diceNames : List String := ["D", "d"]

namespace Tree

/-- Expressions of numbers, arithmetic, comparisons and rolls of dice in either spelling. -/
inductive IsDiceArithmetic : Tree → Prop
  | integer (n : Int) (span : Option Span) : IsDiceArithmetic (.integer n span)
  | arithmetic (op : Arithmetic) {lhs rhs : Tree} (span : Option Span)
      (hlhs : IsDiceArithmetic lhs) (hrhs : IsDiceArithmetic rhs) :
      IsDiceArithmetic (.arithmetic op lhs rhs span)
  | comparison (op : Comparison) {lhs rhs : Tree} (span : Option Span)
      (hlhs : IsDiceArithmetic lhs) (hrhs : IsDiceArithmetic rhs) :
      IsDiceArithmetic (.comparison op lhs rhs span)
  | infixed {name : String} (hname : name ∈ diceNames) {lhs rhs : Tree} (span : Option Span)
      (hlhs : IsDiceArithmetic lhs) (hrhs : IsDiceArithmetic rhs) :
      IsDiceArithmetic (.infixed name lhs rhs span)
  | call {name : String} (hname : name ∈ diceNames) {lhs rhs : Tree} (span : Option Span)
      (hlhs : IsDiceArithmetic lhs) (hrhs : IsDiceArithmetic rhs) :
      IsDiceArithmetic (.call name [lhs, rhs] span)

/-- The type of a node whose operands must be integers. -/
def typeOfIntegers (lhs rhs : Option ValueType) (result : ValueType) : Option ValueType :=
  if lhs = some .integer ∧ rhs = some .integer then some result else none

/-- The type of an expression of dice arithmetic, if it has one. -/
def type? : Tree → Option ValueType
  | integer .. => some .integer
  | arithmetic _ lhs rhs _ => typeOfIntegers lhs.type? rhs.type? .integer
  | comparison .eq lhs rhs _ | comparison .ne lhs rhs _ =>
    if lhs.type?.isSome ∧ rhs.type?.isSome then some .boolean else none
  | comparison _ lhs rhs _ => typeOfIntegers lhs.type? rhs.type? .boolean
  | infixed _ lhs rhs _ => typeOfIntegers lhs.type? rhs.type? .integer
  | call _ [lhs, rhs] _ => typeOfIntegers lhs.type? rhs.type? .integer
  | _ => none

/-- A comparison is boolean, if its operands have types that it can compare. -/
theorem type?_comparison (op : Comparison) (lhs rhs : Tree) (span : Option Span) :
    (comparison op lhs rhs span).type? =
      if op.isOrdering then typeOfIntegers lhs.type? rhs.type? .boolean
      else if lhs.type?.isSome ∧ rhs.type?.isSome then some .boolean else none := by
  cases op <;> rfl

end Tree

/-- A rational number without its fractional part: the next integer towards zero. -/
def cutOff (x : ℚ) : Int := if 0 ≤ x then ⌊x⌋ else ⌈x⌉

/-- The exact result of arithmetic. -/
def Arithmetic.exact (op : Arithmetic) (a b : Int) : Int :=
  match op with
  | .add => a + b
  | .sub => a - b
  | .mul => a * b
  | .div => cutOff (a / b)

/-- The integer that a value is. -/
def Value.number : Value → Int
  | .integer n => n
  | .boolean _ => 0

/-- Whether a comparison of two values holds. -/
def Comparison.holds (op : Comparison) (a b : Value) : Bool :=
  match op with
  | .eq => a = b
  | .ne => a ≠ b
  | .lt => a.number < b.number
  | .le => a.number ≤ b.number
  | .gt => b.number < a.number
  | .ge => b.number ≤ a.number

namespace Tree

/-- What an expression without calls means, if it has a type. -/
def meaning : Tree → Value
  | integer n _ => .integer n
  | arithmetic op lhs rhs _ => .integer (op.exact lhs.meaning.number rhs.meaning.number)
  | comparison op lhs rhs _ => .boolean (op.holds lhs.meaning rhs.meaning)
  | _ => .boolean false

/-- No node of a tree divides by what means zero. -/
def NoZeroDivisor (tree : Tree) : Prop :=
  ∀ node ∈ tree.nodes, ∀ lhs rhs span, node = .arithmetic .div lhs rhs span →
    rhs.meaning ≠ .integer 0

end Tree

section Exact

/-- Cutting off is towards zero on both sides. -/
theorem cutOff_neg (x : ℚ) : cutOff (-x) = -cutOff x := by
  unfold cutOff
  rcases lt_trichotomy x 0 with hneg | rfl | hpos
  · rw [if_pos (by linarith), if_neg (by linarith), Int.floor_neg]
  · simp
  · rw [if_neg (by linarith), if_pos (by linarith), Int.ceil_neg]

/-- Division of natural numbers cuts the exact quotient off. -/
theorem cutOff_natCast_div (m n : Nat) : cutOff ((m : ℚ) / n) = (m : Int) / n := by
  unfold cutOff
  rw [if_pos (by positivity)]
  exact Rat.floor_intCast_div_natCast m n

/-- Dropping the remainder is cutting off the quotient. -/
theorem cutOff_div (a b : Int) : cutOff ((a : ℚ) / b) = a.tdiv b := by
  obtain ⟨m, rfl | rfl⟩ := a.eq_nat_or_neg
  · obtain ⟨n, rfl | rfl⟩ := b.eq_nat_or_neg
    · simpa using cutOff_natCast_div m n
    · simpa [div_neg, cutOff_neg, Int.tdiv_neg] using cutOff_natCast_div m n
  · obtain ⟨n, rfl | rfl⟩ := b.eq_nat_or_neg
    · simpa [neg_div, cutOff_neg, Int.neg_tdiv] using cutOff_natCast_div m n
    · simpa using cutOff_natCast_div m n

end Exact

namespace Eval

variable {α β : Type} {P : Except Failure α → Prop} {Q : Except Failure β → Prop}

/-- What holds of every outcome of a computation, whatever the dice, unless they fail. -/
def All (P : Except Failure α → Prop) (m : Eval α) : Prop := m.run.All P

theorem all_pure {a : α} (h : P (.ok a)) : All P (pure a : Eval α) := h

theorem all_throw {failure : Failure} (h : P (.error failure)) : All P (throw failure : Eval α) := h

/-- What holds of two steps holds of both in a row, and of the failures of the first. -/
theorem All.bind {m : Eval α} {f : α → Eval β} (h : All P m)
    (hok : ∀ a, P (.ok a) → All Q (f a))
    (herror : ∀ failure, P (.error failure) → Q (.error failure)) : All Q (m >>= f) := by
  unfold All
  rw [ExceptT.run_bind]
  refine Rolling.All.bind h ?_
  rintro (failure | a) houtcome
  · exact herror failure houtcome
  · exact hok a houtcome

/-- What holds of the failures may be carried along as they are rewritten. -/
theorem All.adapt {Q : Except Failure α → Prop} {m : Eval α} {g : Failure → Failure} (h : All P m)
    (hok : ∀ a, P (.ok a) → Q (.ok a))
    (herror : ∀ failure, P (.error failure) → Q (.error (g failure))) :
    All Q (ExceptT.adapt g m) := by
  unfold All
  rw [ExceptT.run_adapt, ← bind_pure_comp]
  refine Rolling.All.bind h ?_
  rintro (failure | a) houtcome
  · exact herror failure houtcome
  · exact hok a houtcome

/-- A computation that is played to its end has such an outcome, if no draw fails. -/
theorem All.play {m : Eval α} (h : All P m) {σ : Type} [Dice σ] {dice : σ}
    (hdraws : ∀ reason, (m.play dice).1 ≠ .error (.mishap reason)) : P (m.play dice).1 := by
  have hrun := Rolling.All.of_run_ok h dice
  unfold Eval.play at hdraws ⊢
  generalize m.run.run dice = played at hrun hdraws
  obtain ⟨mishap | outcome, after⟩ := played
  · exact absurd rfl (hdraws mishap)
  · exact hrun outcome rfl

end Eval

/-- The failures that types do not rule out. -/
inductive Failure.Excused : Failure → Prop
  | divisionByZero (span : Option Span) : Excused (.ofCause .divisionByZero span)
  | invalidDice (count sides : Int) (span : Option Span) :
      Excused (.ofCause (.invalidDice count sides) span)
  /-- A complaint about dice that cannot be put into words. -/
  | digitLimit : Excused .digitLimit

/-- What the type of an expression says about how its evaluation ends. -/
def Foretold (type? : Option ValueType) : Except Failure Value → Prop
  | .ok value => type? = some value.type
  | .error failure =>
    failure.Excused ∨ type? = none ∧ ∃ span, failure = .ofCause .notInteger span

/-- What the type of an expression says about how its evaluation as an integer ends. -/
def ForetoldInteger (type? : Option ValueType) : Except Failure Int → Prop
  | .ok _ => type? = some .integer
  | .error failure =>
    failure.Excused ∨ type? ≠ some .integer ∧ ∃ span, failure = .ofCause .notInteger span

section Foretold

variable {run : Tree → Eval Value} {lhs rhs tree : Tree}

/-- If the type of an expression foretells its outcome, it foretells it as an integer as well. -/
theorem evalInteger_foretold (h : (run tree).All (Foretold tree.type?)) :
    (evalInteger run tree).All (ForetoldInteger tree.type?) := by
  refine h.bind ?_ ?_
  · intro value htype
    cases value with
    | integer n => exact htype
    | boolean b =>
        refine .inr ⟨?_, tree.span?, rfl⟩
        intro hinteger
        cases htype.symm.trans hinteger
  · rintro failure (hexcused | ⟨hnone, hfailure⟩)
    · exact .inl hexcused
    · exact .inr ⟨by simp [hnone], hfailure⟩

/-- Two operands that must be integers, and a result made of them. -/
theorem operands_foretold (hlhs : (run lhs).All (Foretold lhs.type?))
    (hrhs : (run rhs).All (Foretold rhs.type?)) {type : ValueType} {f : Int → Int → Eval Value}
    (hf : ∀ a b, (f a b).All (Foretold (some type))) :
    Eval.All (Foretold (Tree.typeOfIntegers lhs.type? rhs.type? type))
      (evalInteger run lhs >>= fun a => evalInteger run rhs >>= fun b => f a b) := by
  unfold Tree.typeOfIntegers
  refine (evalInteger_foretold hlhs).bind (fun a hleft => ?_) ?_
  · refine (evalInteger_foretold hrhs).bind (fun b hright => ?_) ?_
    · rw [if_pos ⟨hleft, hright⟩]
      exact hf a b
    · rintro failure (hexcused | ⟨hother, hfailure⟩)
      · exact .inl hexcused
      · exact .inr ⟨if_neg fun hboth => hother hboth.2, hfailure⟩
  · rintro failure (hexcused | ⟨hother, hfailure⟩)
    · exact .inl hexcused
    · exact .inr ⟨if_neg fun hboth => hother hboth.1, hfailure⟩

/-- Two operands that may be of any type, and a result made of them. -/
theorem values_foretold (hlhs : (run lhs).All (Foretold lhs.type?))
    (hrhs : (run rhs).All (Foretold rhs.type?)) (f : Value → Value → Bool) :
    Eval.All (Foretold (if lhs.type?.isSome ∧ rhs.type?.isSome then some .boolean else none))
      (run lhs >>= fun a => run rhs >>= fun b => pure (.boolean (f a b))) := by
  refine hlhs.bind (fun a hleft => ?_) ?_
  · refine hrhs.bind (fun b hright => ?_) ?_
    · have hboth : lhs.type?.isSome ∧ rhs.type?.isSome := by
        rw [hleft, hright]
        exact ⟨rfl, rfl⟩
      exact Eval.all_pure (if_pos hboth)
    · rintro failure (hexcused | ⟨hnone, hfailure⟩)
      · exact .inl hexcused
      · refine .inr ⟨if_neg ?_, hfailure⟩
        simp [hnone]
  · rintro failure (hexcused | ⟨hnone, hfailure⟩)
    · exact .inl hexcused
    · refine .inr ⟨if_neg ?_, hfailure⟩
      simp [hnone]

/-- Arithmetic gives an integer, or divides by zero. -/
theorem Arithmetic.apply_foretold (op : Arithmetic) (a b : Int) (span : Option Span) :
    (op.apply a b span).All (Foretold (some .integer)) := by
  unfold Arithmetic.apply
  cases op with
  | add | sub | mul => exact Eval.all_pure rfl
  | div =>
      dsimp only
      split
      · exact Eval.all_throw (.inl (.divisionByZero span))
      · exact Eval.all_pure rfl

/-- A roll of dice comes to an integer, or is refused. -/
theorem roll_foretold (count sides : Int) (span : Option Span) :
    Eval.All (Foretold (some .integer))
      (ExceptT.adapt (Failure.orAt span) (roll count sides) >>= fun n => pure (.integer n)) := by
  have hroll : (roll count sides).All fun
      | .ok _ => True
      | .error failure => (failure.orAt span).Excused := by
    unfold roll
    split
    · refine Eval.all_throw ?_
      dsimp only
      split
      · exact .invalidDice count sides span
      · exact .digitLimit
    · refine Rolling.All.imp (Eval.raises_lift (P := fun _ => False) _) ?_
      rintro (failure | n) hraised
      · cases hraised
      · trivial
  have hpointed : Eval.All (fun
      | .ok _ => True
      | .error failure => failure.Excused) (ExceptT.adapt (Failure.orAt span) (roll count sides)) :=
    hroll.adapt (fun _ _ => trivial) fun _ hexcused => hexcused
  exact hpointed.bind (fun n _ => Eval.all_pure rfl) fun failure hexcused => .inl hexcused

end Foretold

/-- A call of dice evaluates both operands and rolls. -/
theorem eval_roll {tree lhs rhs : Tree} {name : String} (hname : name ∈ diceNames)
    (hform : tree.form? = some ⟨name, .infixed⟩) (hchildren : tree.children = [lhs, rhs])
    (budget : Nat) (env : Environment) :
    eval .standard (budget + 1) env tree =
      evalInteger (eval .standard budget env) lhs >>= fun count =>
      evalInteger (eval .standard budget env) rhs >>= fun sides =>
      ExceptT.adapt (Failure.orAt tree.span?) (roll count sides) >>= fun n =>
      pure (.integer n) := by
  have hbuiltin : Registry.standard.get? ⟨name, .infixed⟩ = some (Builtin.dice name) := by
    simp only [diceNames, List.mem_cons, List.not_mem_nil, or_false] at hname
    rcases hname with rfl | rfl <;> rfl
  rw [eval_succ]
  unfold evalNode invoke
  rw [hform, hchildren]
  dsimp only
  rw [hbuiltin]
  simp [Builtin.call, Builtin.dice, evalIntegers, Builtin.rollAction]

/-- A budget for a tree has one level for its root and leaves a budget for what is below. -/
theorem Tree.exists_budget {tree : Tree} {budget : Nat} (h : tree.depth ≤ budget) :
    ∃ smaller, budget = smaller + 1 ∧ ∀ child ∈ tree.children, child.depth ≤ smaller := by
  have hpositive : 0 < tree.depth := by
    cases tree <;> simp [depth]
  refine ⟨budget - 1, by omega, fun child hchild => ?_⟩
  have hbelow := depth_lt_of_mem_children hchild
  omega

/-- **Types foretell evaluation.**  Whatever the dice, an expression of dice arithmetic ends as its
type says, if the budget is as large as the expression is deep. -/
theorem eval_foretold {tree : Tree} (htree : tree.IsDiceArithmetic) {budget : Nat}
    (hbudget : tree.depth ≤ budget) (env : Environment) :
    (eval .standard budget env tree).All (Foretold tree.type?) := by
  induction htree generalizing budget with
  | integer n span =>
      obtain ⟨budget, rfl, -⟩ := Tree.exists_budget hbudget
      exact Eval.all_pure rfl
  | @arithmetic op lhs rhs span _ _ ihl ihr =>
      obtain ⟨budget, rfl, hbelow⟩ := Tree.exists_budget hbudget
      have hlhs := ihl (hbelow lhs (by simp [Tree.children]))
      have hrhs := ihr (hbelow rhs (by simp [Tree.children]))
      exact operands_foretold hlhs hrhs fun a b => op.apply_foretold a b span
  | @comparison op lhs rhs span _ _ ihl ihr =>
      obtain ⟨budget, rfl, hbelow⟩ := Tree.exists_budget hbudget
      have hlhs := ihl (hbelow lhs (by simp [Tree.children]))
      have hrhs := ihr (hbelow rhs (by simp [Tree.children]))
      rw [Tree.type?_comparison, eval]
      cases op.isOrdering with
      | true => exact operands_foretold hlhs hrhs fun a b => Eval.all_pure rfl
      | false => exact values_foretold hlhs hrhs op.equates
  | @infixed name hname lhs rhs span _ _ ihl ihr =>
      obtain ⟨budget, rfl, hbelow⟩ := Tree.exists_budget hbudget
      have hlhs := ihl (hbelow lhs (by simp [Tree.children]))
      have hrhs := ihr (hbelow rhs (by simp [Tree.children]))
      rw [eval_roll hname rfl rfl]
      exact operands_foretold hlhs hrhs fun count sides => roll_foretold count sides _
  | @call name hname lhs rhs span _ _ ihl ihr =>
      obtain ⟨budget, rfl, hbelow⟩ := Tree.exists_budget hbudget
      have hlhs := ihl (hbelow lhs (by simp [Tree.children]))
      have hrhs := ihr (hbelow rhs (by simp [Tree.children]))
      rw [eval_roll hname rfl rfl]
      exact operands_foretold hlhs hrhs fun count sides => roll_foretold count sides _

section Meaning

variable {run : Tree → Eval Value} {tree below : Tree}

/-- Operands that must be integers have that type. -/
theorem Tree.typeOfIntegers_eq_some {left right : Option ValueType} {result type : ValueType}
    (h : typeOfIntegers left right result = some type) :
    left = some .integer ∧ right = some .integer ∧ result = type := by
  unfold typeOfIntegers at h
  split at h
  · next hboth =>
      cases h
      exact ⟨hboth.1, hboth.2, rfl⟩
  · cases h

/-- A node with a form is itself a call. -/
theorem Tree.calls_ne_nil {form : Form} (hform : tree.form? = some form) : tree.calls ≠ [] :=
  List.ne_nil_of_mem (mem_calls_of_form? hform)

/-- A tree without calls has none below it. -/
theorem Tree.calls_eq_nil_of_mem_children (h : tree.calls = []) (hchild : below ∈ tree.children) :
    below.calls = [] := by
  have hsubset := calls_subset_of_mem_children hchild
  rw [h] at hsubset
  exact List.subset_nil.mp hsubset

/-- A tree that does not divide by zero does not do so below. -/
theorem Tree.NoZeroDivisor.child (h : tree.NoZeroDivisor) (hchild : below ∈ tree.children) :
    below.NoZeroDivisor :=
  fun node hnode => h node (mem_nodes_trans hnode (mem_nodes_of_mem_children hchild))

/-- What an expression means is of its type. -/
theorem Tree.type_meaning (htree : tree.IsDiceArithmetic) (hcalls : tree.calls = [])
    {type : ValueType} (htype : tree.type? = some type) : tree.meaning.type = type := by
  cases htree with
  | integer n span =>
      cases htype
      rfl
  | arithmetic op span hlhs hrhs => exact (typeOfIntegers_eq_some htype).2.2
  | comparison op span hlhs hrhs =>
      rw [type?_comparison] at htype
      split at htype
      · exact (typeOfIntegers_eq_some htype).2.2
      · split at htype
        · cases htype
          rfl
        · cases htype
  | infixed hname span | call hname span => exact absurd hcalls (calls_ne_nil rfl)

/-- An expression of integer type, without calls, means an integer. -/
theorem Tree.meaning_eq_integer (htree : tree.IsDiceArithmetic) (hcalls : tree.calls = [])
    (htype : tree.type? = some .integer) : tree.meaning = .integer tree.meaning.number := by
  have hinteger := type_meaning htree hcalls htype
  cases hmeaning : tree.meaning with
  | integer n => rfl
  | boolean b =>
      rw [hmeaning] at hinteger
      cases hinteger

/-- An operand that must be an integer, and is one. -/
theorem evalInteger_meaning (h : run tree = pure tree.meaning) (htree : tree.IsDiceArithmetic)
    (hcalls : tree.calls = []) (htype : tree.type? = some .integer) :
    evalInteger run tree = pure tree.meaning.number := by
  unfold evalInteger
  rw [h, Tree.meaning_eq_integer htree hcalls htype]
  rfl

/-- Arithmetic is exact where it does not divide by zero. -/
theorem Arithmetic.apply_eq_exact (op : Arithmetic) (a b : Int) (span : Option Span)
    (h : op = .div → b ≠ 0) : op.apply a b span = pure (.integer (op.exact a b)) := by
  cases op with
  | add | sub | mul => rfl
  | div =>
      unfold apply exact
      dsimp only
      rw [if_neg (h rfl), cutOff_div]

/-- To order two values is to compare their numbers. -/
theorem Comparison.orders_eq_holds (op : Comparison) (h : op.isOrdering = true) (a b : Value) :
    op.orders a.number b.number = op.holds a b := by
  cases op with
  | eq | ne => cases h
  | lt | le | gt | ge => rfl

/-- To equate two values is to compare them as they are. -/
theorem Comparison.equates_eq_holds (op : Comparison) (h : op.isOrdering = false) (a b : Value) :
    op.equates a b = op.holds a b := by
  cases op with
  | eq => rfl
  | ne => exact decide_not.symm
  | lt | le | gt | ge => cases h

/-- **Arithmetic is exact.**  An expression with a type, without calls and without a divisor that is
zero, evaluates to what it means, if the budget is as large as the expression is deep. -/
theorem eval_meaning (htree : tree.IsDiceArithmetic) (hcalls : tree.calls = [])
    (hdivisors : tree.NoZeroDivisor) {type : ValueType} (htype : tree.type? = some type)
    {budget : Nat} (hbudget : tree.depth ≤ budget) (env : Environment) :
    eval .standard budget env tree = pure tree.meaning := by
  induction htree generalizing budget type with
  | integer n span =>
      obtain ⟨budget, rfl, -⟩ := Tree.exists_budget hbudget
      rfl
  | @arithmetic op lhs rhs span hlhs hrhs ihl ihr =>
      obtain ⟨budget, rfl, hbelow⟩ := Tree.exists_budget hbudget
      have hleft : lhs ∈ (Tree.arithmetic op lhs rhs span).children := by simp [Tree.children]
      have hright : rhs ∈ (Tree.arithmetic op lhs rhs span).children := by simp [Tree.children]
      have hnone := Tree.calls_eq_nil_of_mem_children hcalls hleft
      have hnone' := Tree.calls_eq_nil_of_mem_children hcalls hright
      obtain ⟨htype, htype', -⟩ := Tree.typeOfIntegers_eq_some htype
      have ha := ihl hnone (hdivisors.child hleft) htype (hbelow lhs hleft)
      have hb := ihr hnone' (hdivisors.child hright) htype' (hbelow rhs hright)
      have hdivisor : op = .div → rhs.meaning.number ≠ 0 := by
        rintro rfl hzero
        refine hdivisors _ (Tree.mem_nodes_self _) lhs rhs span rfl ?_
        rw [Tree.meaning_eq_integer hrhs hnone' htype', hzero]
      rw [eval, evalInteger_meaning ha hlhs hnone htype, evalInteger_meaning hb hrhs hnone' htype']
      exact op.apply_eq_exact _ _ span hdivisor
  | @comparison op lhs rhs span hlhs hrhs ihl ihr =>
      obtain ⟨budget, rfl, hbelow⟩ := Tree.exists_budget hbudget
      have hleft : lhs ∈ (Tree.comparison op lhs rhs span).children := by simp [Tree.children]
      have hright : rhs ∈ (Tree.comparison op lhs rhs span).children := by simp [Tree.children]
      have hnone := Tree.calls_eq_nil_of_mem_children hcalls hleft
      have hnone' := Tree.calls_eq_nil_of_mem_children hcalls hright
      rw [Tree.type?_comparison] at htype
      rw [eval]
      cases hop : op.isOrdering with
      | true =>
          rw [hop, if_pos rfl] at htype
          obtain ⟨htype, htype', -⟩ := Tree.typeOfIntegers_eq_some htype
          have ha := ihl hnone (hdivisors.child hleft) htype (hbelow lhs hleft)
          have hb := ihr hnone' (hdivisors.child hright) htype' (hbelow rhs hright)
          rw [if_pos rfl, evalInteger_meaning ha hlhs hnone htype,
            evalInteger_meaning hb hrhs hnone' htype', Tree.meaning, ← op.orders_eq_holds hop]
          rfl
      | false =>
          rw [hop, if_neg Bool.false_ne_true] at htype
          split at htype
          · next hboth =>
              obtain ⟨type, htype⟩ := Option.isSome_iff_exists.mp hboth.1
              obtain ⟨type', htype'⟩ := Option.isSome_iff_exists.mp hboth.2
              rw [if_neg Bool.false_ne_true, Tree.meaning, ← op.equates_eq_holds hop,
                ihl hnone (hdivisors.child hleft) htype (hbelow lhs hleft),
                ihr hnone' (hdivisors.child hright) htype' (hbelow rhs hright)]
              rfl
          · cases htype
  | infixed hname span | call hname span => exact absurd hcalls (Tree.calls_ne_nil rfl)

end Meaning

/-- The outcome is a complaint about dice, be it one that cannot be put into words. -/
def RefusesDice {α : Type} (outcome : Except Failure α) : Prop :=
  EndsIn "E205" outcome ∨ outcome = .error .digitLimit

/-- What is excused is a division by zero or a refusal of dice. -/
theorem Failure.Excused.endsIn {α : Type} {failure : Failure} (h : failure.Excused) :
    EndsIn "E204" (.error failure : Except Failure α) ∨
      RefusesDice (.error failure : Except Failure α) := by
  cases h with
  | divisionByZero span => exact .inl ⟨_, rfl, rfl⟩
  | invalidDice count sides span => exact .inr (.inl ⟨_, rfl, rfl⟩)
  | digitLimit => exact .inr (.inr rfl)

section Whole

variable {tree : Tree} {limit : Nat}

/-- What is foretold is never blamed on a spent budget. -/
theorem evaluateWithin_foretold (htree : tree.IsDiceArithmetic) (hlimit : tree.depth ≤ limit)
    (env : Environment) :
    (evaluateWithin limit .standard env tree).All (Foretold tree.type?) := by
  refine (eval_foretold htree hlimit env).adapt (fun _ hvalue => hvalue) ?_
  rintro failure (hexcused | ⟨hnone, span, rfl⟩)
  · refine .inl ?_
    cases hexcused <;> constructor
  · exact .inr ⟨hnone, span, rfl⟩

/-- What is foretold is never a lack of room. -/
theorem Foretold.not_endsIn {type? : Option ValueType} {outcome : Except Failure Value}
    (h : Foretold type? outcome) : ¬ EndsIn "E206" outcome := by
  rintro ⟨mistake, rfl, hcode⟩
  rcases h with hexcused | ⟨-, span, hfailure⟩
  · cases hexcused <;> simp [Cause.code] at hcode
  · cases hfailure
    simp [Cause.code] at hcode

/-- An expression that does not exceed the limit ends as it would if the limit were larger. -/
theorem evaluateWithin_max {env : Environment} {σ : Type} [Dice σ] {dice : σ}
    (h : ¬ EndsIn "E206" ((evaluateWithin limit .standard env tree).play dice).1) :
    (evaluateWithin limit .standard env tree).play dice =
      (evaluateWithin (max limit tree.depth) .standard env tree).play dice :=
  ((evaluateWithin_larger (Nat.le_max_left _ _) .standard env tree dice).resolve_left h).symm

end Whole

/-- **Types foretell evaluation, and arithmetic is exact.**  Take an expression of dice arithmetic, any
environment and any limit of nested evaluations, and dice that do not fail on the way.  The expression
does not exceed a limit as large as it is deep.  If it does not exceed the limit, then

* if it has a type, it ends in a value of that type, in E204, or in a complaint about dice;
* if it has no type, it ends in E203, in E204, or in a complaint about dice;
* if it has a type, rolls no dice and never divides by what means zero, it ends in what it means in
  exact arithmetic, and the dice are left alone. -/
theorem types_foretell (limit : Nat) (env : Environment) (tree : Tree)
    (htree : tree.IsDiceArithmetic) {σ : Type} [Dice σ] (dice : σ)
    (hdraws : ∀ reason,
      ((evaluateWithin limit .standard env tree).play dice).1 ≠ .error (.mishap reason)) :
    (tree.depth ≤ limit →
      ¬ EndsIn "E206" ((evaluateWithin limit .standard env tree).play dice).1) ∧
    (¬ EndsIn "E206" ((evaluateWithin limit .standard env tree).play dice).1 →
      (∀ type, tree.type? = some type →
        (∃ value, ((evaluateWithin limit .standard env tree).play dice).1 = .ok value ∧
          value.type = type) ∨
        EndsIn "E204" ((evaluateWithin limit .standard env tree).play dice).1 ∨
        RefusesDice ((evaluateWithin limit .standard env tree).play dice).1) ∧
      (tree.type? = none →
        EndsIn "E203" ((evaluateWithin limit .standard env tree).play dice).1 ∨
        EndsIn "E204" ((evaluateWithin limit .standard env tree).play dice).1 ∨
        RefusesDice ((evaluateWithin limit .standard env tree).play dice).1) ∧
      (tree.type? ≠ none → tree.calls = [] → tree.NoZeroDivisor →
        (evaluateWithin limit .standard env tree).play dice = (.ok tree.meaning, dice))) := by
  constructor
  · intro hlimit
    exact ((evaluateWithin_foretold htree hlimit env).play hdraws).not_endsIn
  · intro hwithin
    have hsame := evaluateWithin_max hwithin
    rw [hsame] at hdraws ⊢
    have hdepth : tree.depth ≤ max limit tree.depth := Nat.le_max_right _ _
    have hforetold := (evaluateWithin_foretold htree hdepth env).play hdraws
    generalize hplay : (evaluateWithin (max limit tree.depth) .standard env tree).play dice = played
      at hforetold
    obtain ⟨outcome, after⟩ := played
    refine ⟨?_, ?_, ?_⟩
    · intro type htype
      cases outcome with
      | ok value => exact .inl ⟨value, rfl, Option.some.inj (hforetold.symm.trans htype)⟩
      | error failure =>
          rcases hforetold with hexcused | ⟨hnone, -⟩
          · exact .inr hexcused.endsIn
          · cases hnone.symm.trans htype
    · intro hnone
      cases outcome with
      | ok value => cases hnone.symm.trans hforetold
      | error failure =>
          rcases hforetold with hexcused | ⟨-, span, rfl⟩
          · exact .inr hexcused.endsIn
          · exact .inl ⟨_, rfl, rfl⟩
    · intro hsome hcalls hdivisors
      obtain ⟨type, htype⟩ := Option.ne_none_iff_exists'.mp hsome
      have hexact := eval_meaning htree hcalls hdivisors htype hdepth env
      unfold evaluateWithin at hplay
      rw [hexact] at hplay
      exact hplay.symm

/-- The expression `(0 - 7) / 2`. -/
def minusSevenHalves : Tree :=
  .arithmetic .div (.arithmetic .sub (.integer 0 none) (.integer 7 none) none) (.integer 2 none) none

/-- The expression `(1 D 6 < 7) + 1`. -/
def comparedRoll : Tree :=
  .arithmetic .add
    (.comparison .lt (.infixed "D" (.integer 1 none) (.integer 6 none) none) (.integer 7 none) none)
    (.integer 1 none) none

/-- Half of minus seven is minus three, and `(1 D 6 < 7) + 1` has no value. -/
theorem types_foretell_examples :
    (evaluateWithin 3 .standard .empty minusSevenHalves).play (Script.ofRolls []) =
      (.ok (.integer (-3)), Script.ofRolls []) ∧
    (EndsIn "E203" ((evaluateWithin 4 .standard .empty comparedRoll).play
        (Script.ofRolls [some 4])).1 ∨
      EndsIn "E204" ((evaluateWithin 4 .standard .empty comparedRoll).play
        (Script.ofRolls [some 4])).1 ∨
      RefusesDice ((evaluateWithin 4 .standard .empty comparedRoll).play
        (Script.ofRolls [some 4])).1) := by
  have hhalves : minusSevenHalves.IsDiceArithmetic :=
    .arithmetic _ _ (.arithmetic _ _ (.integer _ _) (.integer _ _)) (.integer _ _)
  have hroll : comparedRoll.IsDiceArithmetic :=
    .arithmetic _ _ (.comparison _ _ (.infixed (by decide) _ (.integer _ _) (.integer _ _))
      (.integer _ _)) (.integer _ _)
  have hdivisors : minusSevenHalves.NoZeroDivisor := by
    intro node hnode lhs rhs span hnode'
    subst hnode'
    simp only [minusSevenHalves, Tree.nodes, List.cons_append, List.nil_append, List.mem_cons,
      Tree.arithmetic.injEq, true_and, reduceCtorEq, false_and, List.not_mem_nil, or_self,
      or_false] at hnode
    obtain ⟨-, rfl, -⟩ := hnode
    decide
  have hmeaning : minusSevenHalves.meaning = .integer (-3) := by
    show Value.integer (cutOff (((0 - 7 : Int) : ℚ) / (2 : Int))) = _
    rw [cutOff_div]
    rfl
  obtain ⟨hdeep, hvalue⟩ := types_foretell 3 .empty minusSevenHalves hhalves (Script.ofRolls []) (by
    intro reason hmishap
    cases hmishap)
  obtain ⟨hdeep', hvalue'⟩ := types_foretell 4 .empty comparedRoll hroll (Script.ofRolls [some 4]) (by
    intro reason hmishap
    cases hmishap)
  rw [← hmeaning]
  exact ⟨(hvalue (hdeep (by decide))).2.2 (by decide) (by decide) hdivisors,
    (hvalue' (hdeep' (by decide))).2.1 (by decide)⟩

end DiceLang
