import DiceLang.Proofs.Program.Sound
import DiceLang.Proofs.Session.Escape

/-!
# Expressions and definitions

A line is an expression or a block of definitions.  Which of them is settled by looking for an arrow
before anything is read, and that is right: expressions have no arrows, and blocks have one for each
definition.  So reading a line is reading it either way, and no text can be read both ways.  That is
`Line.parse_is_union`, which also says what this makes of the results of a session.

Arrows are counted among the tokens.  Characters that look like one, as in `==>` or `<=>`, may belong
to other tokens.
-/

namespace DiceLang

open Grammar

/-- How many arrows there are among the tokens of a text. -/
def arrows (text : String) : Nat := (tokenize text).countP (isKind .arrow)

section Texts

variable {text : String}

/-- The tokens of a text that is read as an expression are a sentence. -/
theorem Tree.sentence_of_parse {tree : Tree} (h : Tree.parse text = .ok tree) :
    Sentence (tokenize text) tree.erase :=
  sentence_of_ofTokens (closed_tokenize text) (mapError_eq_ok h)

/-- Those of a text that is read as a block of definitions are a listing. -/
theorem Program.listing_of_parse {block : Program} (h : Program.parse text = .ok block) :
    Listing (tokenize text) block.definitions :=
  listing_of_ofTokens (closed_tokenize text) (mapError_eq_ok h)

/-- There is no arrow in an expression. -/
theorem Tree.arrows_of_parse {tree : Tree} (h : Tree.parse text = .ok tree) : arrows text = 0 :=
  (sentence_of_parse h).countP_arrow

/-- There are as many arrows in a block as definitions. -/
theorem Program.arrows_of_parse {block : Program} (h : Program.parse text = .ok block) :
    arrows text = block.definitions.length :=
  (listing_of_parse h).countP_arrow

/-- It makes no difference whether values or failures are rewritten first. -/
theorem mapError_map {ε ε' α β : Type} (x : Except ε α) (f : α → β) (g : ε → ε') :
    (x.map f).mapError g = (x.mapError g).map f := by
  cases x <;> rfl

/-- Without an arrow a line is read as an expression, and otherwise as a block of definitions. -/
theorem Line.parse_eq (text : String) :
    Line.parse text = if arrows text = 0 then (Tree.parse text).map .expression
      else (Program.parse text).map .program := by
  unfold Line.parse Line.ofTokens
  by_cases harrows : arrows text = 0
  · have hnone : ((tokenize text).any fun token => token.kind == .arrow) = false := by
      rw [List.any_eq_false]
      exact List.countP_eq_zero.mp harrows
    rw [hnone, if_pos harrows]
    exact mapError_map _ _ _
  · have hsome : ((tokenize text).any fun token => token.kind == .arrow) = true := by
      rw [List.any_eq_true]
      exact List.countP_pos_iff.mp (Nat.pos_of_ne_zero harrows)
    rw [hsome, if_neg harrows]
    exact mapError_map _ _ _

/-- A line is an expression if and only if its text is one. -/
theorem Line.parse_expression_iff {tree : Tree} :
    Line.parse text = .ok (.expression tree) ↔ Tree.parse text = .ok tree := by
  rw [Line.parse_eq]
  constructor
  · intro h
    split at h
    · obtain ⟨tree', htree, hsame⟩ := map_eq_ok h
      cases hsame
      exact htree
    · obtain ⟨block, -, hsame⟩ := map_eq_ok h
      cases hsame
  · intro h
    rw [if_pos (Tree.arrows_of_parse h), h]
    rfl

/-- A line is a program if and only if its text is a block with a definition in it. -/
theorem Line.parse_program_iff {block : Program} :
    Line.parse text = .ok (.program block) ↔
      Program.parse text = .ok block ∧ block.definitions ≠ [] := by
  rw [Line.parse_eq]
  constructor
  · intro h
    split at h
    · obtain ⟨tree, -, hsame⟩ := map_eq_ok h
      cases hsame
    · next harrows =>
      obtain ⟨block', hblock, hsame⟩ := map_eq_ok h
      cases hsame
      rw [Program.arrows_of_parse hblock] at harrows
      exact ⟨hblock, mt List.length_eq_zero_iff.mpr harrows⟩
  · rintro ⟨h, hsome⟩
    have harrows : arrows text ≠ 0 := by
      rw [Program.arrows_of_parse h]
      exact mt List.length_eq_zero_iff.mp hsome
    rw [if_neg harrows, h]
    rfl

end Texts

section Sessions

variable {σ : Type}

/-- If a failure has a result it is a mistake. -/
theorem Session.outcome_fail {session : Session σ} {notes : List Note} {failure : Failure}
    {result : LineResult} (h : (session.fail notes failure).outcome = .ok result) :
    ∃ mistake, result = .failed mistake := by
  cases failure with
  | fault mistake =>
      cases h
      exact ⟨mistake, rfl⟩
  | digitLimit | notExpression | tooDeep | mishap | withheld => cases h

variable [Dice σ]

/-- A line that is not blank and does not fail was read, and its result is of the sort that it was
read as. -/
theorem Session.runLine_result {session : Session σ} {text : String} {result : LineResult}
    (hline : Text.isEmptyLine text = false) (h : (session.runLine text).outcome = .ok result)
    (hsucceeds : ∀ mistake, result ≠ .failed mistake) :
    (∃ tree value, Line.parse text = .ok (.expression tree) ∧ result = .value value) ∨
    ∃ block, Line.parse text = .ok (.program block) ∧ result = .defined block.forms := by
  rw [runLine_eq hline] at h
  cases hparse : Line.parse text with
  | error failure =>
      rw [hparse] at h
      obtain ⟨mistake, hfailed⟩ := outcome_fail h
      exact absurd hfailed (hsucceeds mistake)
  | ok line =>
      rw [hparse] at h
      cases line with
      | program block =>
          cases h
          exact .inr ⟨block, rfl, rfl⟩
      | expression tree =>
          simp only [runParsed, Session.play] at h
          split at h
          · cases h
            exact .inl ⟨tree, _, rfl, rfl⟩
          · obtain ⟨mistake, hfailed⟩ := outcome_fail h
            exact absurd hfailed (hsucceeds mistake)

end Sessions

/-- **A line is an expression or definitions.**  No text can be read both as an expression and as a
block of definitions.  A text is read as a line to an expression if and only if it is read as that
expression, and to a block if and only if it is read as that block and the block defines something.  A
block has as many definitions as there are arrows in its text.

So a line that is not blank and succeeds in a session comes to a value, and then there is no arrow in
it, or it defines at least one form, and then one for each arrow. -/
theorem Line.parse_is_union (text : String) :
    (∀ tree block, ¬ (Tree.parse text = .ok tree ∧ Program.parse text = .ok block)) ∧
    (∀ tree, Line.parse text = .ok (.expression tree) ↔ Tree.parse text = .ok tree) ∧
    (∀ block, Line.parse text = .ok (.program block) ↔
      Program.parse text = .ok block ∧ block.definitions ≠ []) ∧
    (∀ block, Program.parse text = .ok block → block.definitions.length = arrows text) ∧
    ∀ (σ : Type) [Dice σ] (session : Session σ) (result : LineResult),
      Text.isEmptyLine text = false → (session.runLine text).outcome = .ok result →
      (∀ mistake, result ≠ .failed mistake) →
      (∃ value, result = .value value ∧ arrows text = 0) ∨
      ∃ forms, result = .defined forms ∧ forms ≠ [] ∧ forms.length = arrows text := by
  refine ⟨?_, fun tree => parse_expression_iff, fun block => parse_program_iff, ?_, ?_⟩
  · rintro tree block ⟨htree, hblock⟩
    exact (Program.listing_of_parse hblock).not_sentence (Tree.sentence_of_parse htree)
  · intro block hblock
    exact (Program.arrows_of_parse hblock).symm
  · intro σ _ session result hline houtcome hsucceeds
    rcases Session.runLine_result hline houtcome hsucceeds with
      ⟨tree, value, hparse, rfl⟩ | ⟨block, hparse, rfl⟩
    · exact .inl ⟨value, rfl, Tree.arrows_of_parse (parse_expression_iff.mp hparse)⟩
    · obtain ⟨hblock, hsome⟩ := parse_program_iff.mp hparse
      refine .inr ⟨block.forms, rfl, ?_, ?_⟩
      · simpa [Program.forms] using hsome
      · rw [Program.arrows_of_parse hblock]
        exact List.length_map _

/-- Two definitions, one of them with a comparison. -/
def twoDefinitions : String := "small \"x\" => x <= 3\nfive => 5"

/-- A text with two arrows is read as two definitions. -/
theorem Line.parse_is_union_twoDefinitions :
    arrows twoDefinitions = 2 ∧
    ∃ block, Line.parse twoDefinitions = .ok (.program block) ∧ block.definitions.length = 2 := by
  have harrows : arrows twoDefinitions = 2 := by decide +kernel
  have hread : (Program.parse twoDefinitions).isOk = true := by decide +kernel
  obtain ⟨-, -, hprogram, hcount, -⟩ := Line.parse_is_union twoDefinitions
  cases hblock : Program.parse twoDefinitions with
  | error failure =>
      rw [hblock] at hread
      cases hread
  | ok block =>
      have hlength := hcount block hblock
      rw [harrows] at hlength
      refine ⟨harrows, block, (hprogram block).mpr ⟨hblock, ?_⟩, hlength⟩
      intro hnone
      rw [hnone] at hlength
      cases hlength

end DiceLang
