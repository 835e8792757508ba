import DiceLang.Program.Reading
import Mathlib.Logic.Basic

/-!
# Tokens in the same words

What reading makes of tokens depends on their kinds and values alone (`Token.content`).  Neither where
they stand nor how much layout a separator takes in shows in the result, but for the spans of its
nodes, nor in the words of the report if there is none.

Two readings are compared by `Agree`: both give a value, and the values are related, or both fail, and
the failures are reported in the same words.  Every level of the grammar keeps this if it holds of what
stands in parentheses.  `Line.parse_agree` is what follows for texts.
-/

namespace DiceLang

namespace Token

/-- What a token says: its kind and its value. -/
def content (token : Token) : Kind × Option String := (token.kind, token.value?)

variable {token other : Token}

/-- Tokens that say the same are of one kind. -/
theorem kind_eq (h : other.content = token.content) : other.kind = token.kind :=
  congrArg Prod.fst h

/-- The value of a token is its text, unless it is a line break or the end. -/
theorem value?_eq_lexeme (hbreak : token.kind ≠ .separator) (hend : token.kind ≠ .eof) :
    token.value? = some token.lexeme := by
  unfold value?
  split
  · next hkind => exact absurd hkind hend
  · next hkind => exact absurd hkind hbreak
  · rfl

/-- Only separators can say the same in other letters. -/
theorem lexeme_eq (h : other.content = token.content) (hbreak : token.kind ≠ .separator)
    (hend : token.kind ≠ .eof) : other.lexeme = token.lexeme := by
  have hkind := kind_eq h
  have hvalue : other.value? = token.value? := congrArg Prod.snd h
  rw [value?_eq_lexeme hbreak hend, value?_eq_lexeme (hkind ▸ hbreak) (hkind ▸ hend)] at hvalue
  exact Option.some.inj hvalue

/-- Tokens that say the same are described alike in a report. -/
theorem describe_eq (h : other.content = token.content) : other.describe = token.describe := by
  have hkind := kind_eq h
  by_cases hbreak : token.kind = .separator
  · simp [describe, hkind, hbreak]
  by_cases hend : token.kind = .eof
  · simp [describe, hkind, hend]
  unfold describe
  rw [hkind, lexeme_eq h hbreak hend]

end Token

/-- Two lists of tokens say the same, token by token. -/
def Verbatim (tokens others : List Token) : Prop :=
  others.map Token.content = tokens.map Token.content

section Verbatim

variable {tokens others rest : List Token} {token : Token}

theorem Verbatim.nil_left (h : Verbatim [] others) : others = [] := List.map_eq_nil_iff.mp h

/-- What says the same as a list with a first token has a first token that says the same. -/
theorem Verbatim.cons_left (h : Verbatim (token :: rest) others) :
    ∃ other rest', others = other :: rest' ∧ other.content = token.content ∧ Verbatim rest rest' := by
  obtain ⟨other, rest', rfl, hsame, hrest⟩ := List.map_eq_cons_iff.mp h
  exact ⟨other, rest', rfl, hsame, hrest⟩

/-- Which kind comes first does not depend on where the tokens stand. -/
theorem Verbatim.startsWith_eq (h : Verbatim tokens others) (kinds : List Kind) :
    startsWith kinds others = startsWith kinds tokens := by
  cases tokens with
  | nil => rw [h.nil_left]
  | cons token rest =>
      obtain ⟨other, rest', rfl, hsame, -⟩ := h.cons_left
      rw [startsWith, startsWith, Token.kind_eq hsame]

/-- Both lists are at their ends, or neither is. -/
theorem Verbatim.atEnd_eq (h : Verbatim tokens others) : atEnd others = atEnd tokens := by
  cases tokens with
  | nil => rw [h.nil_left]
  | cons token rest =>
      obtain ⟨other, rest', rfl, hsame, -⟩ := h.cons_left
      rw [atEnd, atEnd, Token.kind_eq hsame]

/-- Behind their line breaks both lists go on saying the same. -/
theorem Verbatim.skipSeparators (h : Verbatim tokens others) :
    Verbatim (skipSeparators tokens) (skipSeparators others) := by
  induction tokens generalizing others with
  | nil => rw [h.nil_left]; rfl
  | cons token rest ih =>
      obtain ⟨other, rest', rfl, hsame, hrest⟩ := h.cons_left
      have hkind := Token.kind_eq hsame
      unfold DiceLang.skipSeparators at ih ⊢
      by_cases hbreak : token.kind = .separator
      · simp only [List.dropWhile_cons, hkind, hbreak]
        exact ih hrest
      · simpa [List.dropWhile_cons, hkind, hbreak] using h

/-- A kind occurs in both lists or in neither. -/
theorem Verbatim.any_kind_eq (h : Verbatim tokens others) (kind : Kind) :
    (others.any fun token => token.kind == kind) = tokens.any fun token => token.kind == kind := by
  induction tokens generalizing others with
  | nil => rw [h.nil_left]
  | cons token rest ih =>
      obtain ⟨other, rest', rfl, hsame, hrest⟩ := h.cons_left
      rw [List.any_cons, List.any_cons, Token.kind_eq hsame, ih hrest]

end Verbatim

/-- Two failures are reported in the same words, wherever they point. -/
inductive Failure.Echoes : Failure → Failure → Prop
  /-- Mistakes with the same code and the same message. -/
  | fault {mistake other : Fault} (hcode : other.cause.code = mistake.cause.code)
      (hmessage : other.cause.message = mistake.cause.message) :
      Echoes (.fault mistake) (.fault other)
  | refl (failure : Failure) : Echoes failure failure

/-- One cause is reported in the same words wherever it is found. -/
theorem Failure.echoes_ofCause (cause : Cause) (span span' : Option Span) :
    Echoes (.ofCause cause span) (.ofCause cause span') := .fault rfl rfl

/-- The line that is quoted is no part of the words. -/
theorem Failure.Echoes.quoting {failure other : Failure} (h : failure.Echoes other)
    (text text' : String) : (failure.quoting text).Echoes (other.quoting text') := by
  cases h with
  | fault hcode hmessage =>
      refine .fault ?_ ?_
      · rw [Fault.cause_quoting, Fault.cause_quoting, hcode]
      · rw [Fault.cause_quoting, Fault.cause_quoting, hmessage]
  | refl =>
      cases failure with
      | fault mistake =>
          refine .fault ?_ ?_
          · rw [Fault.cause_quoting, Fault.cause_quoting]
          · rw [Fault.cause_quoting, Fault.cause_quoting]
      | digitLimit | notExpression | tooDeep | mishap | withheld => exact .refl _

/-- Two outcomes agree: related values, or failures in the same words. -/
inductive Agree {α β : Type} (R : α → β → Prop) : Except Failure α → Except Failure β → Prop
  | ok {a : α} {b : β} (hvalue : R a b) : Agree R (.ok a) (.ok b)
  | error {failure other : Failure} (hfailure : failure.Echoes other) :
      Agree R (.error failure) (.error other)

namespace Agree

variable {α β γ δ : Type} {R : α → β → Prop} {S : γ → δ → Prop} {x : Except Failure α}
  {y : Except Failure β}

/-- Computations in two steps agree if their first steps do, and their second steps on related values.
-/
theorem bind {f : α → Except Failure γ} {g : β → Except Failure δ} (h : Agree R x y)
    (hf : ∀ a b, R a b → Agree S (f a) (g b)) : Agree S (x >>= f) (y >>= g) := by
  cases h with
  | ok hvalue => exact hf _ _ hvalue
  | error hfailure => exact .error hfailure

/-- Outcomes go on agreeing when something is made of their values. -/
theorem map {f : α → γ} {g : β → δ} (h : Agree R x y) (hf : ∀ a b, R a b → S (f a) (g b)) :
    Agree S (x.map f) (y.map g) := by
  cases h with
  | ok hvalue => exact .ok (hf _ _ hvalue)
  | error hfailure => exact .error hfailure

/-- Outcomes go on agreeing when the reports quote the texts. -/
theorem quoting (h : Agree R x y) (text text' : String) :
    Agree R (x.mapError (Failure.quoting text)) (y.mapError (Failure.quoting text')) := by
  cases h with
  | ok hvalue => exact .ok hvalue
  | error hfailure => exact .error (hfailure.quoting text text')

theorem exists_ok {a : α} (h : Agree R (.ok a) y) : ∃ b, y = .ok b ∧ R a b := by
  cases h with
  | ok hvalue => exact ⟨_, rfl, hvalue⟩

theorem exists_ok_left {b : β} (h : Agree R x (.ok b)) : ∃ a, x = .ok a ∧ R a b := by
  cases h with
  | ok hvalue => exact ⟨_, rfl, hvalue⟩

end Agree

/-- Two readings have related values and leave the same said. -/
structure Reading.Matches {α β : Type} {tokens others : List Token} (R : α → β → Prop)
    (reading : Reading α tokens) (other : Reading β others) : Prop where
  value : R reading.value other.value
  rest : Verbatim reading.rest other.rest

/-- A reader only heeds what tokens say. -/
def Reader.Heeds {α : Type} (R : α → α → Prop) (reader : Reader α) : Prop :=
  ∀ ⦃tokens others : List Token⦄, Verbatim tokens others →
    Agree (Reading.Matches R) (reader tokens) (reader others)

section Matches

variable {α β γ δ : Type} {R : α → β → Prop} {S : γ → δ → Prop} {tokens others : List Token}

/-- Readings may be given other values, as long as these are related. -/
theorem Reading.Matches.as {reading : Reading α tokens} {other : Reading β others}
    (h : reading.Matches R other) {value : γ} {value' : δ} (hvalue : S value value') :
    (reading.as value).Matches S (other.as value') := ⟨hvalue, h.rest⟩

/-- What comes second settles both the value and the rest. -/
theorem Reading.Matches.andThen (first : Reading α tokens) (first' : Reading β others)
    {second : Reading γ first.rest} {second' : Reading δ first'.rest}
    (h : second.Matches S second') : (first.andThen second).Matches S (first'.andThen second') :=
  ⟨h.value, h.rest⟩

end Matches

section Single

variable {α : Type} {tokens others : List Token}

/-- Two tokens of the given kind say the same. -/
structure Token.Said (kind : Kind) (token other : Token) : Prop where
  kind : token.kind = kind
  content : other.content = token.content

/-- Tokens of one kind that say the same are written alike, if they are neither line breaks nor ends. -/
theorem Token.Said.lexeme_eq {kind : Kind} {token other : Token} (h : token.Said kind other)
    (hbreak : kind ≠ .separator) (hend : kind ≠ .eof) : other.lexeme = token.lexeme :=
  Token.lexeme_eq h.content (h.kind ▸ hbreak) (h.kind ▸ hend)

/-- Either both lists start with a token that can be taken or neither does. -/
theorem Verbatim.take? {pick : Token → Option α} {R : α → α → Prop} (h : Verbatim tokens others)
    (hpick : ∀ {token other : Token}, other.content = token.content →
      Option.Rel R (pick token) (pick other)) :
    Option.Rel (Reading.Matches R) (DiceLang.take? pick tokens) (DiceLang.take? pick others) := by
  cases tokens with
  | nil =>
      obtain rfl := h.nil_left
      exact .none
  | cons token rest =>
      obtain ⟨other, rest', rfl, hsame, hrest⟩ := h.cons_left
      have hrel := hpick hsame
      rw [DiceLang.take?, DiceLang.take?]
      generalize pick token = first, pick other = second at hrel
      cases hrel with
      | none => exact .none
      | some hvalue => exact .some ⟨hvalue, hrest⟩

/-- Of two tokens that say the same both or neither are of a given kind. -/
theorem rel_ofKind (kind : Kind) {token other : Token} (h : other.content = token.content) :
    Option.Rel (Token.Said kind) (ofKind kind token) (ofKind kind other) := by
  have hkind := Token.kind_eq h
  unfold ofKind
  by_cases hfound : token.kind = kind
  · rw [if_pos hfound, if_pos (hkind.trans hfound)]
    exact .some ⟨hfound, h⟩
  · rw [if_neg hfound, if_neg (hkind ▸ hfound)]
    exact .none

/-- Lists that say the same are refused in the same words. -/
theorem refuse_echoes (h : Verbatim tokens others) (expected : Expectation) :
    (refuse expected tokens).Echoes (refuse expected others) := by
  cases tokens with
  | nil =>
      obtain rfl := h.nil_left
      exact .refl _
  | cons token rest =>
      obtain ⟨other, rest', rfl, hsame, -⟩ := h.cons_left
      rw [refuse, refuse, Token.kind_eq hsame]
      split
      · exact Failure.echoes_ofCause _ _ _
      · next hkind =>
          rw [Token.lexeme_eq hsame (by simp [hkind]) (by simp [hkind])]
          exact Failure.echoes_ofCause _ _ _
      · refine .fault rfl ?_
        show _ ++ other.describe = _ ++ token.describe
        rw [Token.describe_eq hsame]

/-- Whether a token is there that is expected depends on what the tokens say. -/
theorem expect_heeds (kind : Kind) (expected : Expectation) :
    Reader.Heeds (Token.Said kind) (expect kind expected) := by
  intro tokens others h
  have htaken := h.take? (rel_ofKind kind)
  unfold expect
  generalize DiceLang.take? (ofKind kind) tokens = reading,
    DiceLang.take? (ofKind kind) others = other at htaken
  cases htaken with
  | none => exact .error (refuse_echoes h expected)
  | some hmatches => exact .ok hmatches

end Single

/-- Two lists hold the same trees in the same order. -/
def Tree.SameAll (trees others : List Tree) : Prop := trees.map erase = others.map erase

/-- Lists of the same trees may be continued with trees that are the same. -/
theorem Tree.SameAll.append_singleton {trees others : List Tree} {tree other : Tree}
    (h : SameAll trees others) (hlast : tree.Same other) :
    SameAll (trees ++ [tree]) (others ++ [other]) := by
  unfold SameAll Same at *
  rw [List.map_append, List.map_append, h, List.map_singleton, List.map_singleton, hlast]

namespace Grammar

section Levels

variable {nested : Reader Tree} {tokens others : List Token}

/-- Numerals that say the same make the same literal, or are refused in the same words. -/
theorem literal_agree {token other : Token} (h : token.Said .number other) :
    Agree Eq (literal token) (literal other) := by
  unfold literal
  rw [h.lexeme_eq (by decide) (by decide)]
  split
  · exact .error (.refl _)
  · split
    · exact .ok rfl
    · exact .error (Failure.echoes_ofCause _ _ _)

/-- A primary heeds what tokens say if what stands in parentheses does. -/
theorem primary_heeds (h : nested.Heeds Tree.Same) : Reader.Heeds Tree.Same (primary nested) := by
  intro tokens others hsame
  have htaken := hsame.take? (rel_ofKind .lparen)
  unfold primary
  generalize take? (ofKind .lparen) tokens = opening, take? (ofKind .lparen) others = opening'
    at htaken
  cases htaken with
  | some hopening =>
      refine (h hopening.rest).bind fun inner inner' hinner => ?_
      refine (expect_heeds _ _ hinner.rest).bind fun closing closing' hclosing => ?_
      exact .ok ((hclosing.as hinner.value).andThen _ _ |>.andThen _ _)
  | none =>
      refine (expect_heeds _ _ hsame).bind fun number number' hnumber => ?_
      refine (literal_agree hnumber.value).bind fun value value' hvalue => ?_
      subst hvalue
      exact .ok (hnumber.as rfl)

/-- The loop over arguments agrees with itself, since the arguments that it starts from are the same. -/
theorem moreArguments_agree (h : nested.Heeds Tree.Same) {soFar : Reading (List Tree) tokens}
    {soFar' : Reading (List Tree) others} (hsoFar : soFar.Matches Tree.SameAll soFar') :
    Agree (Reading.Matches Tree.SameAll) (moreArguments nested soFar) (moreArguments nested soFar') := by
  fun_induction moreArguments nested soFar generalizing soFar' with
  | case1 soFar hcomma =>
      have htaken := hsoFar.rest.take? (rel_ofKind .comma)
      rw [hcomma] at htaken
      rw [moreArguments]
      generalize take? (ofKind .comma) soFar'.rest = comma' at htaken
      cases htaken
      exact .ok hsoFar
  | case2 soFar comma hcomma ih =>
      have htaken := hsoFar.rest.take? (rel_ofKind .comma)
      rw [hcomma] at htaken
      rw [moreArguments]
      generalize take? (ofKind .comma) soFar'.rest = comma' at htaken
      cases htaken with
      | some hmatches =>
          refine (h hmatches.rest).bind fun argument argument' hargument => ?_
          refine ih argument ?_
          refine ((hargument.as ?_).andThen _ _).andThen _ _
          exact hsoFar.value.append_singleton hargument.value

/-- The arguments of a call are the same trees, one by one. -/
theorem arguments_heeds (h : nested.Heeds Tree.Same) :
    Reader.Heeds Tree.SameAll (arguments nested) := by
  intro tokens others hsame
  have htaken := hsame.take? (rel_ofKind .rparen)
  unfold arguments
  generalize take? (ofKind .rparen) tokens = closing, take? (ofKind .rparen) others = closing'
    at htaken
  cases htaken with
  | some hclosing => exact .ok (hclosing.as rfl)
  | none =>
      refine (h hsame).bind fun first first' hfirst => ?_
      have hone : Tree.SameAll [first.value] [first'.value] :=
        congrArg (fun tree => [tree]) hfirst.value
      refine (moreArguments_agree h (hfirst.as hone)).bind fun all all' hall => ?_
      refine (expect_heeds _ _ hall.rest).bind fun closing closing' hclosing => ?_
      exact .ok ((hclosing.as hall.value).andThen _ _)

/-- A call with any number of arguments but one is no prefix command. -/
theorem erase_callNode {args : List Tree} (h : args.length ≠ 1) (name : String) (span : Span) :
    (callNode name args span).erase = .call name (args.map Tree.erase) none := by
  unfold callNode
  split
  · exact absurd rfl h
  · rw [Tree.erase, Tree.eraseAll_eq_map]

/-- Calls with the same arguments are the same tree, wherever they stand. -/
theorem callNode_same {name : String} {args args' : List Tree} (h : Tree.SameAll args args')
    (span span' : Span) : Tree.Same (callNode name args span) (callNode name args' span') := by
  have hlength : args'.length = args.length := by
    have hmapped := congrArg List.length h
    rwa [List.length_map, List.length_map, eq_comm] at hmapped
  by_cases hone : args.length = 1
  · obtain ⟨rhs, rfl⟩ := List.length_eq_one_iff.mp hone
    obtain ⟨rhs', rfl⟩ := List.length_eq_one_iff.mp (hlength.trans hone)
    exact congrArg (Tree.prefixed name · none) (List.cons.inj h).1
  · unfold Tree.Same
    rw [erase_callNode hone, erase_callNode (hlength ▸ hone), h]

/-- What a name makes with the tokens behind it depends on what they say. -/
theorem namedCommand_agree (h : nested.Heeds Tree.Same) {name : Reading Token tokens}
    {name' : Reading Token others} (hname : name.Matches (Token.Said .identifier) name') :
    Agree (Reading.Matches Tree.Same) (namedCommand nested name) (namedCommand nested name') := by
  have htaken := hname.rest.take? (rel_ofKind .lparen)
  have hlexeme := hname.value.lexeme_eq (by decide) (by decide)
  unfold namedCommand
  generalize take? (ofKind .lparen) name.rest = opening,
    take? (ofKind .lparen) name'.rest = opening' at htaken
  cases htaken with
  | some hopening =>
      refine (arguments_heeds h hopening.rest).bind fun args args' hargs => ?_
      refine .ok (((hargs.andThen _ _).andThen _ _).as ?_)
      rw [hlexeme]
      exact callNode_same hargs.value _ _
  | none =>
      simp only [hname.rest.startsWith_eq]
      split
      · refine (primary_heeds h hname.rest).bind fun rhs rhs' hrhs => ?_
        refine .ok ((hrhs.andThen _ _).as ?_)
        rw [hlexeme]
        exact congrArg (Tree.prefixed _ · none) hrhs.value
      · refine .ok (hname.as ?_)
        rw [hlexeme]
        rfl

/-- What an operand makes with the tokens behind it depends on what they say. -/
theorem operandCommand_agree (h : nested.Heeds Tree.Same) {lhs : Reading Tree tokens}
    {lhs' : Reading Tree others} (hlhs : lhs.Matches Tree.Same lhs') :
    Agree (Reading.Matches Tree.Same) (operandCommand nested lhs) (operandCommand nested lhs') := by
  have htaken := hlhs.rest.take? (rel_ofKind .identifier)
  unfold operandCommand
  generalize take? (ofKind .identifier) lhs.rest = name,
    take? (ofKind .identifier) lhs'.rest = name' at htaken
  cases htaken with
  | none => exact .ok hlhs
  | @some name name' hname =>
      have hlexeme := hname.value.lexeme_eq (by decide) (by decide)
      simp only [hname.rest.startsWith_eq]
      split
      · refine (primary_heeds h hname.rest).bind fun rhs rhs' hrhs => ?_
        refine .ok (((hrhs.andThen _ _).andThen _ _).as ?_)
        rw [hlexeme]
        exact congrArg₂ (Tree.infixed _ · · none) hlhs.value hrhs.value
      · refine .ok ((hname.andThen _ _).as ?_)
        rw [hlexeme]
        exact congrArg (Tree.postfixed _ · none) hlhs.value

/-- Commands of every shape heed what tokens say. -/
theorem command_heeds (h : nested.Heeds Tree.Same) : Reader.Heeds Tree.Same (command nested) := by
  intro tokens others hsame
  have htaken := hsame.take? (rel_ofKind .identifier)
  unfold command
  generalize take? (ofKind .identifier) tokens = name, take? (ofKind .identifier) others = name'
    at htaken
  cases htaken with
  | some hname => exact namedCommand_agree h hname
  | none =>
      refine (primary_heeds h hsame).bind fun lhs lhs' hlhs => ?_
      exact operandCommand_agree h hlhs

/-- An operator is told by its kind. -/
theorem rel_of_kind {α : Type} {pick : Token → Option α}
    (hpick : ∀ {token other : Token}, other.kind = token.kind → pick other = pick token)
    {token other : Token} (h : other.content = token.content) :
    Option.Rel Eq (pick token) (pick other) := by
  rw [hpick (Token.kind_eq h)]
  cases pick token with
  | none => exact .none
  | some op => exact .some rfl

/-- The loop over operands agrees with itself, since the operands that it starts from are the same. -/
theorem chain_agree {operand : Reader Tree} {pick : Token → Option Arithmetic}
    (h : operand.Heeds Tree.Same)
    (hpick : ∀ {token other : Token}, other.kind = token.kind → pick other = pick token)
    {left : Reading Tree tokens} {left' : Reading Tree others} (hleft : left.Matches Tree.Same left') :
    Agree (Reading.Matches Tree.Same) (chain operand pick left) (chain operand pick left') := by
  fun_induction chain operand pick left generalizing left' with
  | case1 left hop =>
      have htaken := hleft.rest.take? (rel_of_kind hpick)
      rw [hop] at htaken
      rw [chain]
      generalize take? pick left'.rest = op' at htaken
      cases htaken
      exact .ok hleft
  | case2 left op hop ih =>
      have htaken := hleft.rest.take? (rel_of_kind hpick)
      rw [hop] at htaken
      rw [chain]
      generalize take? pick left'.rest = op' at htaken
      cases htaken with
      | some hmatches =>
          refine (h hmatches.rest).bind fun right right' hright => ?_
          refine ih right ?_
          refine ((hright.as ?_).andThen _ _).andThen _ _
          rw [hmatches.value]
          exact congrArg₂ (Tree.arithmetic _ · · none) hleft.value hright.value

theorem product_heeds (h : nested.Heeds Tree.Same) : Reader.Heeds Tree.Same (product nested) := by
  intro tokens others hsame
  refine (command_heeds h hsame).bind fun left left' hleft => ?_
  refine chain_agree (command_heeds h) (fun hkind => ?_) hleft
  rw [productOperator?, hkind, productOperator?]

theorem sum_heeds (h : nested.Heeds Tree.Same) : Reader.Heeds Tree.Same (sum nested) := by
  intro tokens others hsame
  refine (product_heeds h hsame).bind fun left left' hleft => ?_
  refine chain_agree (product_heeds h) (fun hkind => ?_) hleft
  rw [sumOperator?, hkind, sumOperator?]

/-- Comparisons heed what tokens say if their operands do. -/
theorem comparison_heeds {operand : Reader Tree} {pick : Token → Option Comparison}
    (h : operand.Heeds Tree.Same)
    (hpick : ∀ {token other : Token}, other.kind = token.kind → pick other = pick token) :
    Reader.Heeds Tree.Same (comparison operand pick) := by
  intro tokens others hsame
  refine (h hsame).bind fun left left' hleft => ?_
  have htaken := hleft.rest.take? (rel_of_kind hpick)
  generalize take? pick left.rest = op, take? pick left'.rest = op' at htaken
  cases htaken with
  | none => exact .ok hleft
  | @some op op' hop =>
      refine (h hop.rest).bind fun right right' hright => ?_
      refine .ok (((hright.as ?_).andThen _ _).andThen _ _)
      rw [hop.value]
      exact congrArg₂ (Tree.comparison _ · · none) hleft.value hright.value

/-- One level of nesting heeds what tokens say if what stands in parentheses does. -/
theorem equality_heeds (h : nested.Heeds Tree.Same) : Reader.Heeds Tree.Same (equality nested) := by
  have hrelation : Reader.Heeds Tree.Same (relation nested) := by
    refine comparison_heeds (sum_heeds h) fun hkind => ?_
    rw [orderOperator?, hkind, orderOperator?]
  refine comparison_heeds hrelation fun hkind => ?_
  rw [equalityOperator?, hkind, equalityOperator?]

end Levels

/-- Expressions heed what tokens say, within any limit. -/
theorem expression_heeds (limit : Nat) : Reader.Heeds Tree.Same (expression limit) := by
  induction limit with
  | zero =>
      intro tokens others hsame
      cases tokens with
      | nil =>
          obtain rfl := hsame.nil_left
          exact .error (.refl _)
      | cons token rest =>
          obtain ⟨other, rest', rfl, -⟩ := hsame.cons_left
          exact .error (Failure.echoes_ofCause _ _ _)
  | succ limit ih => exact equality_heeds ih

end Grammar

/-- Whole lists that say the same are the same expression, or are refused in the same words. -/
theorem Tree.ofTokens_agree {tokens others : List Token} (h : Verbatim tokens others) (limit : Nat) :
    Agree Tree.Same (Tree.ofTokens limit tokens) (Tree.ofTokens limit others) := by
  refine (Grammar.expression_heeds limit h).bind fun reading reading' hreading => ?_
  have hrest := hreading.rest.skipSeparators
  simp only [hrest.atEnd_eq]
  split
  · exact .ok hreading.value
  · exact .error (refuse_echoes hrest _)

namespace Grammar

section Definitions

variable {tokens others : List Token}

/-- A parameter between quotes is the same name on both sides. -/
theorem quotedParameter_agree {opening : Reading Token tokens} {opening' : Reading Token others}
    (h : Verbatim opening.rest opening'.rest) :
    Agree (Reading.Matches (Token.Said .identifier)) (quotedParameter opening)
      (quotedParameter opening') := by
  refine (expect_heeds _ _ h).bind fun name name' hname => ?_
  refine (expect_heeds _ _ hname.rest).bind fun closing closing' hclosing => ?_
  exact .ok (((hclosing.as hname.value).andThen _ _).andThen _ _)

/-- A pattern is made of the names in it, so it is equal on both sides. -/
theorem pattern_heeds : Reader.Heeds Eq pattern := by
  intro tokens others hsame
  have htaken := hsame.take? (rel_ofKind .quote)
  unfold pattern
  generalize take? (ofKind .quote) tokens = opening, take? (ofKind .quote) others = opening'
    at htaken
  cases htaken with
  | some hopening =>
      refine (quotedParameter_agree hopening.rest).bind fun parameter parameter' hparameter => ?_
      refine (expect_heeds _ _ hparameter.rest).bind fun name name' hname => ?_
      refine .ok ((hname.as ?_).andThen _ _)
      rw [hname.value.lexeme_eq (by decide) (by decide),
        hparameter.value.lexeme_eq (by decide) (by decide)]
  | none =>
      refine (expect_heeds _ _ hsame).bind fun name name' hname => ?_
      have hlexeme := hname.value.lexeme_eq (by decide) (by decide)
      have htaken := hname.rest.take? (rel_ofKind .quote)
      generalize take? (ofKind .quote) name.rest = opening,
        take? (ofKind .quote) name'.rest = opening' at htaken
      cases htaken with
      | none =>
          refine .ok (hname.as ?_)
          rw [hlexeme]
      | some hopening =>
          refine (quotedParameter_agree hopening.rest).bind fun left left' hleft => ?_
          have hfirst := hleft.value.lexeme_eq (by decide) (by decide)
          have htaken := hleft.rest.take? (rel_ofKind .identifier)
          generalize take? (ofKind .identifier) left.rest = right,
            take? (ofKind .identifier) left'.rest = right' at htaken
          cases htaken with
          | none =>
              refine .ok ((hleft.as ?_).andThen _ _)
              rw [hlexeme, hfirst]
          | some hright =>
              have hsecond := hright.value.lexeme_eq (by decide) (by decide)
              simp only [hfirst, hsecond]
              split
              · exact .error (Failure.echoes_ofCause _ _ _)
              · refine .ok (((hright.as ?_).andThen _ _).andThen _ _)
                rw [hlexeme]

/-- Two definitions differ at most in their spans. -/
def SameDefinition (one other : Definition) : Prop := one.toTree.Same other.toTree

/-- Definitions heed what tokens say. -/
theorem definition_heeds (limit : Nat) : Reader.Heeds SameDefinition (definition limit) := by
  intro tokens others hsame
  refine (pattern_heeds hsame).bind fun head head' hhead => ?_
  refine (expect_heeds _ _ hhead.rest).bind fun arrow arrow' harrow => ?_
  refine (expression_heeds limit harrow.rest).bind fun body body' hbody => ?_
  refine .ok (((hbody.andThen _ _).andThen _ _).as ?_)
  rw [hhead.value]
  exact congrArg (Tree.definition _ _ · none) hbody.value

/-- Two blocks hold the same definitions in the same order. -/
def SameBlock (block other : List Definition) : Prop :=
  Tree.SameAll (block.map Definition.toTree) (other.map Definition.toTree)

/-- Blocks of the same definitions may be preceded by definitions that are the same. -/
theorem SameBlock.cons {one other : Definition} {block block' : List Definition}
    (hfirst : SameDefinition one other) (h : SameBlock block block') :
    SameBlock (one :: block) (other :: block') := congrArg₂ List.cons hfirst h

/-- Whole blocks hold the same definitions, or are refused in the same words. -/
theorem definitions_agree (limit : Nat) (h : Verbatim tokens others) :
    Agree SameBlock (definitions limit tokens) (definitions limit others) := by
  fun_induction definitions limit tokens generalizing others with
  | case1 tokens hend =>
      rw [definitions, if_pos (h.atEnd_eq.trans hend)]
      exact .ok rfl
  | case2 tokens hend ih =>
      rw [definitions, if_neg (h.atEnd_eq ▸ hend)]
      refine (definition_heeds limit h).bind fun first first' hfirst => ?_
      simp only [hfirst.rest.atEnd_eq]
      split
      · exact .ok (.cons hfirst.value rfl)
      · refine (expect_heeds _ _ hfirst.rest).bind fun gap gap' hgap => ?_
        refine (ih first gap hgap.rest.skipSeparators).bind fun block block' hblock => ?_
        exact .ok (.cons hfirst.value hblock)

end Definitions

end Grammar

/-- Whole lists that say the same are the same program, or are refused in the same words. -/
theorem Program.ofTokens_agree {tokens others : List Token} (h : Verbatim tokens others)
    (limit : Nat) : Agree (fun block other => block.toTree.Same other.toTree)
      (Program.ofTokens limit tokens) (Program.ofTokens limit others) := by
  refine (Grammar.definitions_agree limit h.skipSeparators).bind fun block block' hblock => ?_
  refine .ok ?_
  show Tree.program (Tree.eraseAll _) none = Tree.program (Tree.eraseAll _) none
  rw [Tree.eraseAll_eq_map, Tree.eraseAll_eq_map, hblock]

/-- **Reading only heeds what tokens say.**  Lines whose tokens have the same kinds and values are the
same but for spans, or are refused in the same words. -/
theorem Line.parse_agree {text other : String} (h : Verbatim (tokenize text) (tokenize other)) :
    Agree (fun line line' => line.toTree.Same line'.toTree) (Line.parse text) (Line.parse other) := by
  refine Agree.quoting ?_ text other
  unfold Line.ofTokens
  rw [h.any_kind_eq]
  split
  · exact (Program.ofTokens_agree h _).map fun _ _ => id
  · exact (Tree.ofTokens_agree h _).map fun _ _ => id

end DiceLang
