import DiceLang.Dice.Script
import DiceLang.Proofs.Evaluation.Widening
import DiceLang.Proofs.Parser.Agreement
import DiceLang.Proofs.Parser.Stack

/-!
# What the limits do

Evaluation stops where evaluations are nested too deeply, and parsing stops where calls are.  Either is
reported with a code of its own, E206 or E106.  No other result depends on the limit: where a
computation ends in anything else within some limit, it ends in the same within any larger one, with the
same draws.  That is `limits_only_cut`.

For evaluation this is a case of `eval_follows`, and for the parser it is shown in
`DiceLang.Proofs.Parser.Stack`.  The readers agree with the parser where a list is closed and its
numerals are runs of digits, so the same holds of them there (`Tree.ofTokens_larger`,
`Program.ofTokens_larger`).
-/

namespace DiceLang

/-- An outcome is a mistake with the given code. -/
def EndsIn {α : Type} (code : String) (outcome : Except Failure α) : Prop :=
  ∃ mistake, outcome = .error (.fault mistake) ∧ mistake.cause.code = code

section EndsIn

variable {α : Type} {code : String}

/-- A mistake has its own code. -/
theorem endsIn_fault {mistake : Fault} :
    EndsIn code (.error (.fault mistake) : Except Failure α) ↔ mistake.cause.code = code := by
  constructor
  · rintro ⟨other, hsame, hcode⟩
    cases hsame
    exact hcode
  · exact fun hcode => ⟨mistake, rfl, hcode⟩

theorem not_endsIn_ok {value : α} : ¬ EndsIn code (.ok value : Except Failure α) := by
  rintro ⟨mistake, hsame, -⟩
  cases hsame

instance : (outcome : Except Failure α) → Decidable (EndsIn code outcome)
  | .ok _ => isFalse not_endsIn_ok
  | .error (.fault _) => decidable_of_iff _ endsIn_fault.symm
  | .error .digitLimit | .error (.notExpression _) | .error .tooDeep | .error (.mishap _)
  | .error .withheld => isFalse fun ⟨_, hsame, _⟩ => nomatch hsame

end EndsIn

/-- If one computation follows another one unless that goes too deep, then so it is when both report
that as a mistake, wherever they point. -/
theorem Eval.Follows.blame {α : Type} {m m' : Eval α} (h : Follows (· = .tooDeep) m m')
    (span span' : Option Span) {σ : Type} [Dice σ] (dice : σ) :
    EndsIn "E206" (play (ExceptT.adapt (Failure.blame span) m) dice).1 ∨
    play (ExceptT.adapt (Failure.blame span') m') dice =
      play (ExceptT.adapt (Failure.blame span) m) dice := by
  rw [play_adapt _ (fun _ => rfl), play_adapt _ (fun _ => rfl)]
  by_cases hdeep : (m.play dice).1 = .error .tooDeep
  · left
    rw [hdeep]
    exact ⟨⟨.recursion, span, none⟩, rfl, rfl⟩
  · right
    rcases h σ dice with hsame | ⟨failure, hfailure, rfl⟩
    · rw [hsame]
      rcases hplay : m.play dice with ⟨failure | value, after⟩
      · rw [hplay] at hdeep
        cases failure with
        | tooDeep => exact absurd rfl hdeep
        | fault | digitLimit | notExpression | mishap | withheld => rfl
      · rfl
    · exact absurd hfailure hdeep

/-- Evaluation within a larger budget ends alike, unless the budget was spent. -/
theorem evaluateWithin_larger {budget larger : Nat} (hbudget : budget ≤ larger)
    (registry : Registry) (env : Environment) (tree : Tree) {σ : Type} [Dice σ] (dice : σ) :
    EndsIn "E206" ((evaluateWithin budget registry env tree).play dice).1 ∨
    (evaluateWithin larger registry env tree).play dice =
      (evaluateWithin budget registry env tree).play dice := by
  have hself : env.Widens (· = .tooDeep) env := fun _ => .inl rfl
  have hfollows : Eval.Follows (· = .tooDeep) (eval registry budget env tree)
      (eval registry larger env tree) := by
    refine eval_follows registry ?_ hbudget hself tree
    rfl
  exact hfollows.blame tree.span? tree.span? dice

/-- What is reported where parsing stops is what a reader that settles it ends in. -/
theorem Parser.Settles.endsIn {α : Type} {code : String} {x : Except Failure α}
    {outcome : Part (Except Abort α)} (h : Parser.Settles x outcome)
    (hreports : Parser.Reports code outcome) : EndsIn code x := by
  obtain ⟨mistake, hmem, hcode⟩ := hreports
  cases h with
  | ok a => cases Part.mem_some_iff.mp hmem
  | error hsame =>
      cases Part.mem_some_iff.mp hmem
      cases hsame with
      | fault => exact ⟨mistake, rfl, hcode⟩

section Readers

variable {limit larger : Nat} {tokens : List Token}

/-- An expression that is not nested too deeply for a limit is read alike within a larger one, and what
is no expression is refused alike. -/
theorem Tree.ofTokens_larger (hclosed : Grammar.Closed tokens) (hlegible : Grammar.Legible tokens)
    (hlimit : limit ≤ larger) (hends : ¬ EndsIn "E106" (Tree.ofTokens limit tokens)) :
    Tree.ofTokens larger tokens = Tree.ofTokens limit tokens := by
  have hsmall := Parser.parseExpression_settles hclosed hlegible limit
  have hlarge := Parser.parseExpression_settles hclosed hlegible larger
  have hroom := Nat.mul_le_mul_left 7 hlimit
  rw [Parser.parseExpression_larger hroom none _ fun hreports => hends (hsmall.endsIn hreports)]
    at hlarge
  exact hlarge.eq hsmall

/-- The same of a block of definitions. -/
theorem Program.ofTokens_larger (hclosed : Grammar.Closed tokens) (hlegible : Grammar.Legible tokens)
    (hpos : 0 < limit) (hlimit : limit ≤ larger)
    (hends : ¬ EndsIn "E106" (Program.ofTokens limit tokens)) :
    Program.ofTokens larger tokens = Program.ofTokens limit tokens := by
  have hsmall := Parser.parseProgram_settles hclosed hlegible hpos
  have hlarge := Parser.parseProgram_settles hclosed hlegible (Nat.lt_of_lt_of_le hpos hlimit)
  have hroom := Nat.add_le_add_right (Nat.mul_le_mul_left 7 hlimit) 1
  rw [Parser.parseProgram_larger hroom none _ fun hreports => hends (hsmall.endsIn hreports)] at hlarge
  exact hlarge.eq hsmall

end Readers

/-- **The limits only cut.**  Take a limit and a larger one.  Unless the evaluation of an expression
ends in E206 within the first, it ends in the same value or the same failure within the second, with
the same draws, and leaves the dice in the same state.  Unless the parsing of any list of symbols, as an
expression or as a block of definitions, ends in E106 on a stack of the first size, the same comes of it
on a stack of the second, be it that it does not come to an end. -/
theorem limits_only_cut (limit larger : Nat) (hlimit : limit ≤ larger) :
    (∀ (registry : Registry) (env : Environment) (tree : Tree) (σ : Type) [Dice σ] (dice : σ),
      ¬ EndsIn "E206" ((evaluateWithin limit registry env tree).play dice).1 →
      (evaluateWithin larger registry env tree).play dice =
        (evaluateWithin limit registry env tree).play dice) ∧
    (∀ (source : Option String) (symbols : List Symbol),
      ¬ Parser.Reports "E106" (Parser.parseExpression limit source symbols) →
      Parser.parseExpression larger source symbols =
        Parser.parseExpression limit source symbols) ∧
    ∀ (source : Option String) (symbols : List Symbol),
      ¬ Parser.Reports "E106" (Parser.parseProgram limit source symbols) →
      Parser.parseProgram larger source symbols = Parser.parseProgram limit source symbols := by
  refine ⟨?_, ?_, ?_⟩
  · intro registry env tree σ _ dice hends
    exact (evaluateWithin_larger hlimit registry env tree dice).resolve_left hends
  · exact fun source symbols hends => Parser.parseExpression_larger hlimit source symbols hends
  · exact fun source symbols hends => Parser.parseProgram_larger hlimit source symbols hends

/-- The tokens of `7`. -/
def loneNumber : List Token := [Grammar.placed .number "7", Grammar.placed .eof ""]

/-- The tokens of `x => 7`. -/
def loneDefinition : List Token :=
  [Grammar.placed .identifier "x", Grammar.placed .arrow "=>", Grammar.placed .number "7",
    Grammar.placed .eof ""]

/-- Two levels are enough for `2 D 6`, a stack of seven places for a number without parentheses, and one
of eight for a definition by such a number. -/
theorem limits_only_cut_roll :
    let seven : Tree := .integer 7 (Grammar.placed .number "7").span
    let span : Span := (Grammar.placed .number "7").span
    (evaluateWithin 400 .standard .empty
        (.infixed "D" (.integer 2 none) (.integer 6 none) none)).play
      (Script.ofRolls [some 3, some 4]) = (.ok (.integer 7), ⟨[], [6, 6]⟩) ∧
    Parser.parseExpression 400 none (loneNumber.map Token.symbol) = .some (.ok seven) ∧
    Parser.parseProgram 400 none (loneDefinition.map Token.symbol) =
      .some (.ok ⟨[⟨⟨"x", .nullary⟩, [], seven, some span⟩], some span⟩) := by
  intro seven span
  obtain ⟨hevaluate, -, hprogram⟩ := limits_only_cut 8 400 (by decide)
  obtain ⟨-, hexpression, -⟩ := limits_only_cut 7 400 (by decide)
  refine ⟨?_, ?_, ?_⟩
  · refine hevaluate .standard .empty _ Script _ ?_
    rintro ⟨mistake, hmistake, -⟩
    cases hmistake
  · have hread : Tree.ofTokens 1 loneNumber = .ok seven := by with_unfolding_all rfl
    have hreadable : Grammar.Readable loneNumber := by decide +kernel
    have hsettles := Parser.parseExpression_settles hreadable.closed hreadable.legible 1
    rw [hread] at hsettles
    rw [hexpression none _ fun hreports => not_endsIn_ok (hsettles.endsIn hreports)]
    exact hsettles.eq_some
  · have hread : Program.ofTokens 1 loneDefinition =
        .ok ⟨[⟨⟨"x", .nullary⟩, [], seven, some span⟩], some span⟩ := by with_unfolding_all rfl
    have hreadable : Grammar.Readable loneDefinition := by decide +kernel
    have hsettles := Parser.parseProgram_settles hreadable.closed hreadable.legible Nat.one_pos
    rw [hread] at hsettles
    rw [hprogram none _ fun hreports => not_endsIn_ok (hsettles.endsIn hreports)]
    exact hsettles.eq_some

end DiceLang
