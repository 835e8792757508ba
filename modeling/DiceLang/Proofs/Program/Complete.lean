import DiceLang.Proofs.Program.Lines

/-!
# Reading definitions is complete

What spells a block of definitions is read as that block, spans apart (`ofTokens_of_listing`).  The
lines of a block are read one after the other, so `definitions_lines` says what becomes of them before
any list: they are read, and what is read from that list is put behind them.
-/

namespace DiceLang

namespace Grammar

variable {limit : Nat} {tokens rest : List Token}

/-- A name and a quote behind the opening one are read as a parameter. -/
theorem quotedParameter_complete {opening : Reading Token tokens} {parameter closing : Token}
    (htokens : opening.rest = parameter :: closing :: rest)
    (hparameter : parameter.kind = .identifier) (hclosing : closing.kind = .quote) :
    ∃ reading : Reading Token tokens, quotedParameter opening = .ok reading ∧
      reading.value = parameter ∧ reading.rest = rest := by
  obtain ⟨name, hname, rfl, hbehind⟩ := expect_of_kind .parameterName htokens hparameter
  obtain ⟨last, hlast, -, hend⟩ := expect_of_kind .quote hbehind hclosing
  refine ⟨opening.andThen (name.andThen (last.as name.value)), ?_, rfl, hend⟩
  simp only [quotedParameter, hname, ok_bind, hlast]
  rfl

/-- Nothing is taken off a list that starts with a token of another kind. -/
theorem take?_ofKind_of_ne {kind other : Kind} {first : Token} (htokens : tokens = first :: rest)
    (hfirst : first.kind = other) (hother : other ≠ kind) : take? (ofKind kind) tokens = none := by
  refine take?_ofKind_eq_none ?_
  rw [htokens]
  exact startsWith_cons.mpr (by simp [hfirst, hother])

/-- A pattern is read up to the arrow behind it. -/
theorem pattern_complete {head : List Token} {arrow : Token} {value : Pattern}
    (h : SpellsPattern head value) (harrow : arrow.kind = .arrow)
    (htokens : tokens = head ++ arrow :: rest) :
    ∃ reading : Reading Pattern tokens, pattern tokens = .ok reading ∧ reading.value = value ∧
      reading.rest = arrow :: rest := by
  cases h with
  | nullary hname =>
      have hnone := take?_ofKind_of_ne htokens hname (by decide : Kind.identifier ≠ .quote)
      obtain ⟨name, hfirst, rfl, hrest⟩ := expect_of_kind .commandNameOrQuote htokens hname
      have hlast := take?_ofKind_of_ne hrest harrow (by decide : Kind.arrow ≠ .quote)
      refine ⟨name.as ⟨⟨name.value.lexeme, .nullary⟩, []⟩, ?_, rfl, hrest⟩
      simp only [pattern, hnone, hfirst, ok_bind, hlast]
      rfl
  | prefixed hname hopening hparameter hclosing =>
      have hnone := take?_ofKind_of_ne htokens hname (by decide : Kind.identifier ≠ .quote)
      obtain ⟨name, hfirst, rfl, hrest⟩ := expect_of_kind .commandNameOrQuote htokens hname
      obtain ⟨opening, htake, -, hbehind⟩ := take?_of_pick hrest (ofKind_of_kind hopening)
      obtain ⟨left, hleft, rfl, hend⟩ := quotedParameter_complete hbehind hparameter hclosing
      have hlast := take?_ofKind_of_ne hend harrow (by decide : Kind.arrow ≠ .identifier)
      refine ⟨name.andThen (left.as ⟨⟨name.value.lexeme, .prefixed⟩, [left.value.lexeme]⟩), ?_, rfl,
        hend⟩
      simp only [pattern, hnone, hfirst, htake, hleft, ok_bind, hlast]
      rfl
  | infixed hname hopening hparameter hclosing hsecond hdiffer =>
      have hnone := take?_ofKind_of_ne htokens hname (by decide : Kind.identifier ≠ .quote)
      obtain ⟨name, hfirst, rfl, hrest⟩ := expect_of_kind .commandNameOrQuote htokens hname
      obtain ⟨opening, htake, -, hbehind⟩ := take?_of_pick hrest (ofKind_of_kind hopening)
      obtain ⟨left, hleft, rfl, hend⟩ := quotedParameter_complete hbehind hparameter hclosing
      obtain ⟨right, hright, rfl, hlast⟩ := take?_of_pick hend (ofKind_of_kind hsecond)
      refine ⟨name.andThen (left.andThen (right.as ⟨⟨name.value.lexeme, .infixed⟩,
        [left.value.lexeme, right.value.lexeme]⟩)), ?_, rfl, hlast⟩
      simp only [pattern, hnone, hfirst, htake, hleft, ok_bind, hright, if_neg hdiffer]
      rfl
  | postfixed hopening hparameter hclosing hname =>
      obtain ⟨opening, htake, -, hbehind⟩ := take?_of_pick htokens (ofKind_of_kind hopening)
      obtain ⟨parameter, hleft, rfl, hend⟩ := quotedParameter_complete hbehind hparameter hclosing
      obtain ⟨name, hlast, rfl, hrest⟩ := expect_of_kind .commandName hend hname
      refine ⟨parameter.andThen (name.as ⟨⟨name.value.lexeme, .postfixed⟩,
        [parameter.value.lexeme]⟩), ?_, rfl, hrest⟩
      simp only [pattern, htake, hleft, ok_bind, hlast]
      rfl

/-- A definition is read up to what does not go on with its body. -/
theorem definition_complete {line tail : List Token} {value : Definition}
    (h : SpellsDefinition line value) (hfit : Fit limit line)
    (htail : startsWith afterExpression tail = false) (htokens : tokens = line ++ tail) :
    ∃ reading : Reading Definition tokens, definition limit tokens = .ok reading ∧
      reading.value.erase = value.erase ∧ reading.rest = tail := by
  obtain ⟨hhead, harrow, hbody⟩ := h
  have hinside := (hfit.rest hhead.balanced).uncons (balanced_of_kind harrow (by decide))
  have hpos : 0 < limit := hfit.nested [] List.nil_prefix
  obtain ⟨n, rfl⟩ : ∃ n, limit = n + 1 := ⟨limit - 1, by omega⟩
  rw [List.append_assoc, List.cons_append] at htokens
  obtain ⟨head, hpattern, hvalue, hrest⟩ := pattern_complete hhead harrow htokens
  obtain ⟨arrow, harrow', -, hbehind⟩ := expect_of_kind .arrow hrest harrow
  obtain ⟨body, hread, herase, hend⟩ := hbody.complete n arrow.rest tail hinside.roomy hbehind htail
  refine ⟨(head.andThen (arrow.andThen body)).as ⟨head.value.form, head.value.parameters,
    body.value, (head.andThen (arrow.andThen body)).span⟩, ?_, ?_, hend⟩
  · simp only [definition, hpattern, ok_bind, harrow', expression, hread]
    rfl
  · simp [Definition.erase, hvalue, herase]

theorem skipSeparators_cons {sep : Token} (hsep : sep.kind = .separator) (rest : List Token) :
    skipSeparators (sep :: rest) = skipSeparators rest := by
  simp [skipSeparators, hsep]

theorem definitions_of_atEnd (h : atEnd tokens = true) : definitions limit tokens = .ok [] := by
  rw [definitions, if_pos h]
  rfl

/-- Behind a definition and a line break the others are read. -/
theorem definitions_of_definition {reading : Reading Definition tokens} {sep : Token}
    (hsome : ¬ atEnd tokens = true) (hreading : definition limit tokens = .ok reading)
    (hrest : reading.rest = sep :: rest) (hsep : sep.kind = .separator) :
    definitions limit tokens =
      (definitions limit (skipSeparators rest)).map (reading.value :: ·) := by
  have hmore : ¬ atEnd reading.rest = true := by
    rw [hrest]
    simp [atEnd, hsep]
  obtain ⟨gap, hgap, -, hbehind⟩ := expect_of_kind .lineBreak hrest hsep
  rw [definitions, if_neg hsome, hreading, ok_bind, if_neg hmore, hgap, ok_bind]
  dsimp only
  rw [hbehind]
  cases definitions limit (skipSeparators rest) <;> rfl

/-- One line before the end or a line break. -/
theorem definitions_line {line tail : List Token} {value : Definition}
    (h : SpellsDefinition line value) (hfit : Fit limit line)
    (htail : startsWith [.separator, .eof] tail = true) :
    ∃ read : Definition, read.erase = value.erase ∧
      definitions limit (skipSeparators (line ++ tail)) =
        (definitions limit (skipSeparators tail)).map (read :: ·) := by
  have hstart := h.startsWith tail
  have hskip : skipSeparators (line ++ tail) = line ++ tail :=
    skipSeparators_eq_self (startsWith_of_disjoint (by decide) hstart)
  have hsome : ¬ atEnd (line ++ tail) = true := by
    simp [atEnd_of_startsWith hstart (by decide)]
  have hafter : startsWith afterExpression tail = false := startsWith_of_disjoint (by decide) htail
  obtain ⟨reading, hreading, herase, hrest⟩ := definition_complete h hfit hafter rfl
  refine ⟨reading.value, herase, ?_⟩
  rw [hskip]
  cases tail with
  | nil => cases htail
  | cons next others =>
      by_cases hend : next.kind = .eof
      · have hlast : atEnd (next :: others) = true := by simp [atEnd, hend]
        have hnone : startsWith [.separator] (next :: others) = false := by
          simp [startsWith, hend]
        rw [skipSeparators_eq_self hnone, definitions_of_atEnd hlast, definitions, if_neg hsome,
          hreading, ok_bind, if_pos (by rwa [hrest])]
        rfl
      · have hsep : next.kind = .separator := by simpa [startsWith, hend] using htail
        rw [skipSeparators_cons hsep]
        exact definitions_of_definition hsome hreading hrest hsep

/-- **Lines are read one after the other**, and then what follows them. -/
theorem definitions_lines {front tail : List Token} {block : List Definition}
    (h : Lines front block) (hfit : Fit limit front)
    (htail : startsWith [.separator, .eof] tail = true) :
    ∃ read : List Definition, read.map Definition.erase = block.map Definition.erase ∧
      definitions limit (skipSeparators (front ++ tail)) =
        (definitions limit (skipSeparators tail)).map (read ++ ·) := by
  induction h with
  | nil =>
      refine ⟨[], rfl, ?_⟩
      rw [List.nil_append]
      cases definitions limit (skipSeparators tail) <;> rfl
  | gap hsep _ ih =>
      rw [List.cons_append, skipSeparators_cons hsep]
      exact ih (hfit.uncons (balanced_of_kind hsep (by decide)))
  | last hline =>
      obtain ⟨read, herase, hread⟩ := definitions_line hline hfit htail
      exact ⟨[read], by simp [herase], hread⟩
  | @more line rest sep definition block hline hsep _ ih =>
      have hbreak : startsWith [.separator, .eof] (sep :: (rest ++ tail)) = true := by
        simp [startsWith, hsep]
      obtain ⟨read, herase, hread⟩ := definitions_line hline hfit.front hbreak
      obtain ⟨others, hothers, hmore⟩ :=
        ih ((hfit.rest hline.balanced).uncons (balanced_of_kind hsep (by decide)))
      refine ⟨read :: others, by simp [herase, hothers], ?_⟩
      rw [List.append_assoc, List.cons_append, hread, skipSeparators_cons hsep, hmore]
      cases definitions limit (skipSeparators tail) <;> rfl

/-- **Completeness.**  A block of definitions is read as such. -/
theorem ofTokens_of_listing {block : List Definition} (hfit : Fit limit tokens)
    (h : Listing tokens block) :
    ∃ program, Program.ofTokens limit tokens = .ok program ∧
      program.definitions.map Definition.erase = block.map Definition.erase := by
  obtain ⟨body, stop, rfl, hstop, hbody⟩ := listing_iff.mp h
  have htail : startsWith [.separator, .eof] [stop] = true := by simp [startsWith, hstop]
  obtain ⟨read, herase, hread⟩ := definitions_lines hbody hfit.front htail
  have hlast : atEnd (skipSeparators [stop]) = true := by simp [skipSeparators, atEnd, hstop]
  rw [definitions_of_atEnd hlast] at hread
  refine ⟨⟨read ++ [], tokensSpan? (body ++ [stop])⟩, ?_, by simpa using herase⟩
  unfold Program.ofTokens
  rw [hread]
  rfl

end Grammar

end DiceLang
