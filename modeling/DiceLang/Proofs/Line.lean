import DiceLang.Program.Reading
import DiceLang.Proofs.Program.Sound
import DiceLang.Proofs.Token.Scan
import DiceLang.Proofs.Tree.Expression

/-!
# What becomes of a line when it is read

A line is read as an expression or as a block of definitions, or it is refused.  A refusal is a
mistake, with one exception: a numeral that is too long to be converted ends the reading without a
report.  `Line.parse_digitLimit_iff` says when.  A line that is read has no such numeral, and what it
is read as can be evaluated.
-/

namespace DiceLang

namespace Grammar

section Whole

variable {limit : Nat} {tokens rest : List Token} {failure : Failure}

/-- Every numeral of a list is short enough to be converted. -/
def Convertible (tokens : List Token) : Prop :=
  ∀ token ∈ tokens, ¬ Overlong token

/-- Only numerals can be too long. -/
theorem convertible_of_kind (h : ∀ token ∈ tokens, token.kind ≠ .number) : Convertible tokens :=
  fun token htoken => not_overlong (h token htoken)

/-- Two lists can be converted in a row. -/
theorem Convertible.append {front back : List Token} (hfront : Convertible front)
    (hback : Convertible back) : Convertible (front ++ back) :=
  List.forall_mem_append.mpr ⟨hfront, hback⟩

/-- Line breaks are no numerals, so it is enough to look behind them. -/
theorem convertible_of_skipSeparators (h : Convertible (skipSeparators tokens)) :
    Convertible tokens := by
  obtain ⟨gap, htokens, hgap⟩ := skipSeparators_eq tokens
  have hbreaks : Convertible gap := convertible_of_kind fun token htoken => by
    simp [hgap token htoken]
  exact htokens ▸ hbreaks.append h

/-- Nothing is left behind the end of a closed list. -/
theorem Closed.convertible (h : Closed tokens) (hrest : rest <:+ tokens)
    (hend : atEnd rest = true) : Convertible rest := by
  obtain ⟨front, rfl⟩ := hrest
  intro token htoken hlong
  cases rest with
  | nil => cases htoken
  | cons stop others =>
      have hstop : stop.kind = .eof := by simpa [atEnd] using hend
      rcases List.mem_cons.mp htoken with rfl | hbehind
      · cases hstop.symm.trans hlong.1
      · refine h.2 stop ?_ hstop
        rw [List.dropLast_append_of_ne_nil (List.cons_ne_nil _ _),
          List.dropLast_cons_of_ne_nil (List.ne_nil_of_mem hbehind)]
        simp

/-- What stands behind the line breaks is the back of the list. -/
theorem skipSeparators_suffix (tokens : List Token) : skipSeparators tokens <:+ tokens :=
  List.dropWhile_suffix _

/-- All numerals of an expression that has been read have been converted. -/
theorem convertible_of_ofTokens {tree : Tree} (hclosed : Closed tokens)
    (h : Tree.ofTokens limit tokens = .ok tree) : Convertible tokens := by
  obtain ⟨reading, hreading, h⟩ := bind_eq_ok h
  obtain ⟨taken, hoccupies, hread⟩ := expression_sites limit hreading
  have htakes := hoccupies.takes
  dsimp only at h
  split at h
  · next hend =>
      have hrest : Convertible reading.rest := convertible_of_skipSeparators
        (hclosed.convertible ((skipSeparators_suffix _).trans htakes.suffix) hend)
      exact htakes ▸ Convertible.append hread.roomy.short hrest
  · cases h

/-- The codes of the mistakes that are found in the tokens of a line. -/
def readingCodes : List String := mistakeCodes ++ ["E105", "E106"]

/-- A mistake of a text is reported. -/
def Reported (failure : Failure) : Prop :=
  ∃ mistake, failure = .fault mistake ∧ mistake.cause.code ∈ readingCodes

/-- How the reading of a list ends without a result: a mistake is reported, or a numeral of the list
is too long. -/
def Refused (tokens : List Token) (failure : Failure) : Prop :=
  Reported failure ∨ failure = .digitLimit ∧ ¬ Convertible tokens

/-- A refusal by the grammar is one of the ways in which reading ends without a result. -/
theorem Refusal.refused (h : Refusal limit tokens failure) : Refused tokens failure := by
  cases h with
  | mistake hcode => exact .inl ⟨_, rfl, List.mem_append_left _ hcode⟩
  | nesting hdeep => exact .inl ⟨_, rfl, by simp [Cause.code, readingCodes]⟩
  | overlong htoken hlong => exact .inr ⟨rfl, fun hshort => hshort _ htoken hlong⟩

/-- A mistake that is not one of nesting. -/
def Mistaken (failure : Failure) : Prop :=
  ∃ mistake, failure = .fault mistake ∧ mistake.cause.code ∈ mistakeCodes ++ ["E105"]

/-- A mistake of the grammar is reported. -/
theorem Mistaken.reported (h : Mistaken failure) : Reported failure := by
  obtain ⟨mistake, rfl, hcode⟩ := h
  refine ⟨mistake, rfl, ?_⟩
  simp only [mistakeCodes, readingCodes, List.cons_append, List.nil_append] at hcode ⊢
  exact List.mem_of_mem_dropLast hcode

/-- What is not found is a mistake. -/
theorem expect_mistaken {kind : Kind} {expected : Expectation}
    (h : expect kind expected tokens = .error failure) : Mistaken failure := by
  obtain ⟨mistake, hrefuse, hcode⟩ := refuse_eq_mistake expected tokens
  exact ⟨mistake, (expect_eq_error h).trans hrefuse, List.mem_append_left _ hcode⟩

end Whole

section Blocks

variable {limit : Nat} {tokens : List Token} {failure : Failure}

/-- What is wrong with a parameter is a mistake of the grammar. -/
theorem quotedParameter_mistaken {opening : Reading Token tokens}
    (h : quotedParameter opening = .error failure) : Mistaken failure := by
  rcases bind_eq_error h with hname | ⟨name, hname, h⟩
  · exact expect_mistaken hname
  · rcases bind_eq_error h with hclosing | ⟨closing, hclosing, h⟩
    · exact expect_mistaken hclosing
    · cases h

/-- What is wrong with a pattern is one too: nothing is nested in it, and it has no numerals. -/
theorem pattern_mistaken (h : pattern tokens = .error failure) : Mistaken failure := by
  unfold pattern at h
  split at h
  · rcases bind_eq_error h with hparameter | ⟨parameter, hparameter, h⟩
    · exact quotedParameter_mistaken hparameter
    · rcases bind_eq_error h with hname | ⟨name, hname, h⟩
      · exact expect_mistaken hname
      · cases h
  · rcases bind_eq_error h with hname | ⟨name, hname, h⟩
    · exact expect_mistaken hname
    · split at h
      · cases h
      · rcases bind_eq_error h with hleft | ⟨left, hleft, h⟩
        · exact quotedParameter_mistaken hleft
        · split at h
          · cases h
          · split at h
            · cases h
              exact ⟨_, rfl, by simp [Cause.code, mistakeCodes]⟩
            · cases h

/-- Why a list is not read as definitions: there is a mistake in one of them, or its body is
refused. -/
def BlockRefusal (limit : Nat) (tokens : List Token) (failure : Failure) : Prop :=
  Mistaken failure ∨ Refusal limit tokens failure

/-- A refusal of a block is one of the ways in which reading ends without a result. -/
theorem BlockRefusal.refused (h : BlockRefusal limit tokens failure) : Refused tokens failure := by
  rcases h with hmistake | hbody
  · exact .inl hmistake.reported
  · exact hbody.refused

/-- A refusal of what follows a balanced piece is a refusal of the whole. -/
theorem BlockRefusal.append {others : List Token} (h : BlockRefusal limit others failure)
    (hbalanced : Balanced tokens) : BlockRefusal limit (tokens ++ others) failure :=
  h.imp_right fun hbody => hbody.append hbalanced

/-- What is refused behind a balanced reading is refused in the whole list. -/
theorem BlockRefusal.behind {α : Type} {reading : Reading α tokens} {taken : List Token}
    (htakes : reading.Takes taken) (hbalanced : Balanced taken)
    (h : BlockRefusal limit reading.rest failure) : BlockRefusal limit tokens failure :=
  htakes ▸ h.append hbalanced

theorem BlockRefusal.of_skipSeparators (h : BlockRefusal limit (skipSeparators tokens) failure) :
    BlockRefusal limit tokens failure := by
  obtain ⟨gap, htokens, hgap⟩ := skipSeparators_eq tokens
  exact htokens ▸ h.append (balanced_of_gap hgap)

/-- A definition fails for a mistake in its pattern, or as its body does. -/
theorem definition_explains (h : definition limit tokens = .error failure) :
    BlockRefusal limit tokens failure := by
  rcases bind_eq_error h with hhead | ⟨head, hhead, h⟩
  · exact .inl (pattern_mistaken hhead)
  rcases bind_eq_error h with harrow | ⟨arrow, harrow, h⟩
  · exact .inl (expect_mistaken harrow)
  obtain ⟨front, hfront, hpattern⟩ := pattern_sound hhead
  obtain ⟨hkind, hsecond⟩ := expect_eq_ok harrow
  exact .behind hfront.takes hpattern.balanced
    (.behind hsecond.takes (balanced_of_kind hkind (by decide))
      (.inr (expression_explains limit (map_eq_error h))))

/-- A block fails as one of its definitions does, or for want of a line break. -/
theorem definitions_explains (h : definitions limit tokens = .error failure) :
    BlockRefusal limit tokens failure := by
  fun_induction definitions limit tokens with
  | case1 tokens hend => cases h
  | case2 tokens hend ih =>
      rcases bind_eq_error h with hfirst | ⟨first, hfirst, h⟩
      · exact definition_explains hfirst
      split at h
      · cases h
      rcases bind_eq_error h with hgap | ⟨gap, hgap, h⟩
      · exact .inl (expect_mistaken hgap)
      obtain ⟨line, htakes, hline⟩ := definition_sound hfirst
      obtain ⟨hkind, hbreak⟩ := expect_eq_ok hgap
      exact .behind htakes hline.balanced
        (.behind hbreak.takes (balanced_of_kind hkind (by decide))
          (.of_skipSeparators (ih first gap (map_eq_error h))))

/-- **Refusal.**  A list that is not read as a block of definitions has a mistake, is nested too deeply
or holds a numeral that is too long. -/
theorem program_explains (h : Program.ofTokens limit tokens = .error failure) :
    BlockRefusal limit tokens failure :=
  .of_skipSeparators (definitions_explains (map_eq_error h))

/-- The body of a definition is an expression. -/
theorem definition_isExpression {reading : Reading Definition tokens}
    (h : definition limit tokens = .ok reading) : reading.value.body.isExpression = true := by
  obtain ⟨head, hhead, h⟩ := bind_eq_ok h
  obtain ⟨arrow, harrow, h⟩ := bind_eq_ok h
  obtain ⟨body, hbody, h⟩ := bind_eq_ok h
  cases h
  exact expression_isExpression hbody

/-- All numerals of a block that has been read have been converted. -/
theorem definitions_convertible {whole : List Token} (hclosed : Closed whole)
    (hsuffix : tokens <:+ whole) {block : List Definition}
    (h : definitions limit tokens = .ok block) : Convertible tokens := by
  obtain ⟨front, rest, rfl, hend, hread⟩ := definitions_read h
  have hrest : rest <:+ whole := (List.suffix_append front rest).trans hsuffix
  exact Convertible.append hread.short (hclosed.convertible hrest hend)

/-- What holds of every definition that is read from the back of a list holds of all those that are
read from it. -/
theorem definitions_forall {P : Definition → Prop} {block : List Definition}
    (hread : ∀ {others : List Token} {reading : Reading Definition others}, others <:+ tokens →
      definition limit others = .ok reading → P reading.value)
    (h : definitions limit tokens = .ok block) : ∀ definition ∈ block, P definition := by
  fun_induction definitions limit tokens generalizing block with
  | case1 tokens hend =>
      cases h
      exact List.forall_mem_nil _
  | case2 tokens hend ih =>
      obtain ⟨first, hfirst, h⟩ := bind_eq_ok h
      have hone := hread List.suffix_rfl hfirst
      split at h
      · cases h
        exact List.forall_mem_singleton.mpr hone
      · obtain ⟨gap, hgap, h⟩ := bind_eq_ok h
        obtain ⟨others, hothers, h⟩ := bind_eq_ok h
        cases h
        obtain ⟨line, htakes, -⟩ := definition_sound hfirst
        obtain ⟨-, hbreak⟩ := expect_eq_ok hgap
        have hbehind :=
          (skipSeparators_suffix gap.rest).trans (hbreak.takes.suffix.trans htakes.suffix)
        exact List.forall_mem_cons.mpr
          ⟨hone, ih first gap (fun hsuffix => hread (hsuffix.trans hbehind)) hothers⟩

end Blocks

end Grammar

open Grammar

/-- The tokens of a text end in an end token, and there is no other. -/
theorem closed_tokenize (text : String) : Closed (tokenize text) := by
  unfold tokenize
  generalize Scanner.ofText text = scanner
  induction scanner using Scanner.tokens.induct with
  | case1 scanner token after hnext hend =>
      rw [Scanner.tokens_eq hnext, if_pos hend]
      exact ⟨by simp [hend], by simp⟩
  | case2 scanner token after hnext hend hshorter ih =>
      rw [Scanner.tokens_eq hnext, if_neg hend]
      obtain ⟨hlast, hothers⟩ := ih
      have hsome : after.tokens ≠ [] := by
        intro hnone
        simp [hnone] at hlast
      refine ⟨?_, ?_⟩
      · rw [List.getLast?_cons_of_ne_nil hsome]
        exact hlast
      · rw [List.dropLast_cons_of_ne_nil hsome]
        exact List.forall_mem_cons.mpr ⟨hend, hothers⟩

section Lines

variable {limit : Nat} {tokens : List Token} {text : String} {line : Line} {failure : Failure}

/-- The expressions of a line can be evaluated. -/
def Line.Evaluable : Line → Prop
  | .expression tree => tree.isExpression = true
  | .program block => ∀ definition ∈ block.definitions, definition.body.isExpression = true

/-- A whole list is an expression only if its beginning is. -/
theorem Tree.ofTokens_eq_ok {tree : Tree} (h : Tree.ofTokens limit tokens = .ok tree) :
    ∃ reading : Reading Tree tokens, expression limit tokens = .ok reading ∧
      reading.value = tree := by
  obtain ⟨reading, hreading, hwhole⟩ := bind_eq_ok h
  dsimp only at hwhole
  split at hwhole
  · cases hwhole
    exact ⟨reading, hreading, rfl⟩
  · cases hwhole

/-- What a list of tokens is read as: its expression, or its definitions. -/
theorem Line.ofTokens_cases (h : Line.ofTokens limit tokens = .ok line) :
    (∃ reading : Reading Tree tokens, Grammar.expression limit tokens = .ok reading ∧
      line = .expression reading.value) ∨
    ∃ block, definitions limit (skipSeparators tokens) = .ok block ∧
      line = .program ⟨block, tokensSpan? tokens⟩ := by
  unfold Line.ofTokens at h
  split at h
  · obtain ⟨program, hprogram, rfl⟩ := map_eq_ok h
    obtain ⟨block, hblock, hwhole⟩ := bind_eq_ok hprogram
    cases hwhole
    exact .inr ⟨block, hblock, rfl⟩
  · obtain ⟨tree, htree, rfl⟩ := map_eq_ok h
    obtain ⟨reading, hreading, rfl⟩ := Tree.ofTokens_eq_ok htree
    exact .inl ⟨reading, hreading, rfl⟩

/-- Whatever is read as a line can be evaluated. -/
theorem Line.ofTokens_evaluable (h : Line.ofTokens limit tokens = .ok line) : line.Evaluable := by
  rcases Line.ofTokens_cases h with ⟨reading, hreading, rfl⟩ | ⟨block, hblock, rfl⟩
  · exact expression_isExpression hreading
  · exact definitions_forall (fun _ => definition_isExpression) hblock

/-- All numerals of a line that has been read have been converted. -/
theorem Line.ofTokens_convertible (hclosed : Closed tokens)
    (h : Line.ofTokens limit tokens = .ok line) : Convertible tokens := by
  unfold Line.ofTokens at h
  split at h
  · obtain ⟨block, hblock, rfl⟩ := map_eq_ok h
    obtain ⟨definitions, hdefinitions, -⟩ := bind_eq_ok hblock
    exact convertible_of_skipSeparators
      (definitions_convertible hclosed (skipSeparators_suffix tokens) hdefinitions)
  · obtain ⟨tree, htree, rfl⟩ := map_eq_ok h
    exact convertible_of_ofTokens hclosed htree

/-- A line that cannot be read is refused for a mistake or for a numeral that is too long. -/
theorem Line.ofTokens_refused (h : Line.ofTokens limit tokens = .error failure) :
    Refused tokens failure := by
  unfold Line.ofTokens at h
  split at h
  · exact (program_explains (map_eq_error h)).refused
  · exact (ofTokens_explains (map_eq_error h)).refused

/-- What a text is read as can be evaluated, and its numerals are short enough. -/
theorem Line.parse_eq_ok (h : Line.parse text = .ok line) :
    line.Evaluable ∧ Convertible (tokenize text) := by
  have hread := mapError_eq_ok h
  exact ⟨Line.ofTokens_evaluable hread, Line.ofTokens_convertible (closed_tokenize text) hread⟩

/-- A text that is not read has a mistake, or a numeral that is too long. -/
theorem Line.parse_refused (h : Line.parse text = .error failure) :
    Refused (tokenize text) failure := by
  obtain ⟨reason, hreason, rfl⟩ := mapError_eq_error h
  rcases Line.ofTokens_refused hreason with ⟨mistake, rfl, hcode⟩ | ⟨rfl, hlong⟩
  · refine .inl ⟨mistake.quoting text, rfl, ?_⟩
    rwa [Fault.cause_quoting]
  · exact .inr ⟨rfl, hlong⟩

/-- **Numerals that are too long.**  Reading a text comes to nothing but a numeral that is too long
if and only if it has such a numeral and no mistake is reported. -/
theorem Line.parse_digitLimit_iff :
    Line.parse text = .error .digitLimit ↔
      (∃ token ∈ tokenize text, Overlong token) ∧
        ∀ mistake, Line.parse text ≠ .error (.fault mistake) := by
  constructor
  · intro h
    have hnot : ¬ Convertible (tokenize text) := by
      rcases Line.parse_refused h with ⟨mistake, hmistake, -⟩ | ⟨-, hlong⟩
      · cases hmistake
      · exact hlong
    refine ⟨by simpa [Convertible] using hnot, ?_⟩
    intro mistake hmistake
    cases h.symm.trans hmistake
  · rintro ⟨⟨token, htoken, hlong⟩, hnone⟩
    cases hparse : Line.parse text with
    | ok line => exact absurd hlong ((Line.parse_eq_ok hparse).2 token htoken)
    | error failure =>
        rcases Line.parse_refused hparse with ⟨mistake, rfl, -⟩ | ⟨rfl, -⟩
        · exact absurd hparse (hnone mistake)
        · rfl

/-- An expression that begins with a numeral that is too long is given up. -/
theorem Grammar.expression_overlong (limit : Nat) {token : Token} (hlong : Overlong token)
    (rest : List Token) : expression (limit + 1) (token :: rest) = .error .digitLimit := by
  obtain ⟨hkind, hlength⟩ := hlong
  have hliteral : literal token = .error .digitLimit := by
    unfold literal Text.readDigits?
    rw [if_neg (Nat.not_le_of_lt hlength)]
  have hprimary : primary (expression limit) (token :: rest) = .error .digitLimit := by
    simp only [primary, take?, ofKind, hkind, expect, if_true, reduceCtorEq, if_false]
    show (literal token >>= _) = _
    rw [hliteral]
    rfl
  have hcommand : command (expression limit) (token :: rest) = .error .digitLimit := by
    simp only [command, take?, ofKind, hkind, reduceCtorEq, if_false, hprimary]
    rfl
  have hproduct : product (expression limit) (token :: rest) = .error .digitLimit := by
    unfold product
    rw [hcommand]
    rfl
  have hsum : sum (expression limit) (token :: rest) = .error .digitLimit := by
    unfold sum
    rw [hproduct]
    rfl
  have hrelation : relation (expression limit) (token :: rest) = .error .digitLimit := by
    unfold relation comparison
    rw [hsum]
    rfl
  show equality (expression limit) (token :: rest) = _
  unfold equality comparison
  rw [hrelation]
  rfl

/-- A text of more digits than can be converted is not read, and no mistake is reported. -/
theorem Line.parse_digits (hdigits : ∀ c ∈ text.toList, c.isDigit = true)
    (hlong : Text.digitLimit < text.toList.length) : Line.parse text = .error .digitLimit := by
  have hsome : text.toList ≠ [] := List.ne_nil_of_length_pos (Nat.zero_lt_of_lt hlong)
  obtain ⟨stop, htokens⟩ := tokenize_digits hsome hdigits
  have harrow : (tokenize text).any (fun token => token.kind == .arrow) = false := by
    rw [htokens]
    rfl
  have htree : Tree.ofTokens nestingLimit (tokenize text) = .error .digitLimit := by
    unfold Tree.ofTokens nestingLimit
    rw [htokens, Grammar.expression_overlong 127 ⟨rfl, hlong⟩]
    rfl
  unfold Line.parse Line.ofTokens
  rw [harrow, htree]
  rfl

end Lines

end DiceLang
