import DiceLang.Proofs.Line
import DiceLang.Proofs.Parser.Reading
import DiceLang.Proofs.Program.Laid
import DiceLang.Proofs.Token.Piece

/-!
# Readers and the parser agree

What `DiceLang.Proofs.Parser.Reading` says of expressions is carried to definitions and to whole lists.
Under guard a used up stack is reported as the nesting that the readers report, so that from a closed
list whose numerals are runs of digits the parser makes what the readers make of it
(`parseExpression_settles`, `parseProgram_settles`).  The tokens of any text are such a list.
-/

namespace DiceLang

open Grammar (Closed Legible)

namespace Parser

section Definitions

variable {whole : List Token} {self : (callee : Callee) → Parser callee.Result}

/-- A parameter between quotes is read along with the opening one. -/
theorem quotedParameter_mirrors {rest : List Token} {opening : Reading Token rest} {pos : Nat}
    (h : Reached whole opening pos) :
    Mirrors whole Token.symbol (Grammar.quotedParameter opening)
      (quotedParameter (whole.map Token.symbol) pos) := by
  unfold Grammar.quotedParameter quotedParameter
  refine Matches.bind (consume_mirrored (by decide) .parameterName h.at_rest) ?_
  intro name after _ hname
  refine Matches.bind (consume_mirrored (by decide) .quote hname.at_rest) ?_
  intro closing last _ hclosing
  exact .ok (h.andThen (hname.andThen (hclosing.as name.value)))

/-- A parameter is a name. -/
theorem quotedParameter_kind {rest : List Token} {opening reading : Reading Token rest}
    (h : Grammar.quotedParameter opening = .ok reading) : reading.value.kind = .identifier := by
  obtain ⟨name, hname, h⟩ := bind_eq_ok h
  obtain ⟨closing, -, h⟩ := bind_eq_ok h
  cases h
  exact (expect_eq_ok hname).1

/-- The pattern of a definition. -/
theorem pattern_mirrored : Mirrored whole id Grammar.pattern pattern := by
  intro rest pos hat
  unfold Grammar.pattern pattern
  cases htaken : take? (ofKind .quote) rest with
  | some opening =>
      obtain ⟨haccept, hopening⟩ := hat.accept_of_some (samePick_ofKind (by decide)) htaken
      rw [bind_of_ok haccept]
      refine Matches.bind (quotedParameter_mirrors hopening) fun parameter after hread hparameter => ?_
      refine Matches.bind (consume_mirrored (by decide) .commandName hparameter.at_rest) ?_
      intro name last hfound hname
      rw [symbol_value (quotedParameter_kind hread), symbol_value (expect_eq_ok hfound).1]
      exact .ok (hparameter.andThen (hname.as (⟨⟨_, .postfixed⟩, [_]⟩ : Grammar.Pattern)))
  | none =>
      rw [bind_of_ok (hat.accept_of_none (samePick_ofKind (by decide)) htaken)]
      refine Matches.bind (consume_mirrored (by decide) .commandNameOrQuote hat) ?_
      intro name after hfound hname
      have hvalue := symbol_value (expect_eq_ok hfound).1
      cases hquote : take? (ofKind .quote) name.rest with
      | none =>
          rw [bind_of_ok (hname.at_rest.accept_of_none (samePick_ofKind (by decide)) hquote), hvalue]
          exact .ok (hname.as (⟨⟨_, .nullary⟩, []⟩ : Grammar.Pattern))
      | some opening =>
          obtain ⟨haccept, hopening⟩ :=
            hname.at_rest.accept_of_some (samePick_ofKind (by decide)) hquote
          rw [bind_of_ok haccept]
          refine Matches.bind (quotedParameter_mirrors hopening) fun left last hread hleft => ?_
          have hparameter := symbol_value (quotedParameter_kind hread)
          cases hsecond : take? (ofKind .identifier) left.rest with
          | none =>
              rw [bind_of_ok (hleft.at_rest.accept_of_none (samePick_ofKind (by decide)) hsecond),
                hvalue, hparameter]
              exact .ok (hname.andThen (hleft.as (⟨⟨_, .prefixed⟩, [_]⟩ : Grammar.Pattern)))
          | some right =>
              obtain ⟨haccept, hright⟩ :=
                hleft.at_rest.accept_of_some (samePick_ofKind (by decide)) hsecond
              rw [bind_of_ok haccept]
              dsimp only
              rw [hvalue, hparameter, symbol_value (take?_ofKind_eq_some hsecond).1]
              by_cases hsame : right.value.lexeme = left.value.lexeme
              · rw [if_pos hsame, if_pos hsame]
                exact .error (.same (.fault _) _)
              · rw [if_neg hsame, if_neg hsame]
                exact .ok (hname.andThen (hleft.andThen
                  (hright.as (⟨⟨_, .infixed⟩, [_, _]⟩ : Grammar.Pattern))))

/-- One definition. -/
theorem definition_mirrored {limit : Nat}
    (hpattern : Mirrored whole id Grammar.pattern (self .pattern))
    (hbody : Mirrored whole id (Grammar.expression limit) (self .expression)) :
    Mirrored whole id (Grammar.definition limit) (definition self) := by
  intro rest pos hat
  obtain ⟨start, others, rfl⟩ := hat.exists_cons
  unfold Grammar.definition definition
  rw [bind_of_ok hat.current]
  refine Matches.bind (hpattern hat) fun head after _ hhead => ?_
  refine Matches.bind (consume_mirrored (by decide) .arrow hhead.at_rest) fun arrow next _ harrow => ?_
  refine Matches.bind (hbody harrow.at_rest) fun body last _ hbody => ?_
  have hwhole := hhead.andThen (harrow.andThen hbody)
  rw [bind_of_ok hwhole.spanFrom]
  exact .ok (hwhole.as (⟨_, _, _, _⟩ : Definition))

/-- A definition takes one call more than the expression in it, and a pattern needs a place as well. -/
theorem invoke_definition_mirrored (hlegible : Legible whole) {limit : Nat} (hlimit : 0 < limit) :
    Mirrored whole id (Grammar.definition limit) (invoke (7 * limit + 1) .definition) := by
  refine definition_mirrored ?_ (expression_mirrored hlegible limit)
  obtain ⟨room, hroom⟩ : ∃ room, 7 * limit = room + 1 := ⟨7 * limit - 1, by omega⟩
  rw [hroom]
  exact pattern_mirrored

end Definitions

section Guarded

variable {α β : Type} {whole rest : List Token} {value : α → β} {pos : Nat}

/-- What is said where the stack is used up. -/
theorem guarded_of_overflow {m : Parser β} {token : Token} {after : Nat}
    (h : m (whole.map Token.symbol) pos = .some (.error .overflow, after))
    (hplace : whole[after]? = some token) :
    guarded m (whole.map Token.symbol) pos =
      .some (.error (.fault ⟨.nesting, token.span, none⟩), after) := by
  have hcurrent : current (whole.map Token.symbol) after = .some (.ok token.symbol, after) :=
    current_of_getElem? (by rw [List.getElem?_map, hplace, Option.map_some])
  rw [guarded, h, Part.bind_some, rescue, complainOfNesting, bind_of_ok hcurrent]
  rfl

/-- Under guard a parser comes to what a reader makes of the list, or is broken off for the same
reason. -/
theorem Matches.guarded {fits : α → Nat → Prop} {x : Except Failure α} {m : Parser β}
    (h : Matches value fits (Told whole) x (m (whole.map Token.symbol) pos)) :
    Matches value fits (fun failure abort _ => SameEnd failure abort) x
      (guarded m (whole.map Token.symbol) pos) := by
  generalize hm : m (whole.map Token.symbol) pos = outcome at h
  cases h with
  | ok hfits =>
      rw [Parser.guarded, hm, Part.bind_some]
      exact .ok hfits
  | error htold =>
      cases htold with
      | same hsame =>
          rw [Parser.guarded, hm, Part.bind_some]
          cases hsame with
          | fault mistake => exact .error (.fault mistake)
          | overlong text => exact .error (.overlong text)
      | nesting hplace =>
          rw [guarded_of_overflow hm hplace]
          exact .error (.fault _)

end Guarded

section Whole

variable {whole rest : List Token} {pos limit : Nat}

/-- Behind the line breaks of a closed list the parser comes to stand where the readers do. -/
theorem At.skipSeparators (h : At whole rest pos) : ∃ after,
    Parser.skipSeparators (whole.map Token.symbol) pos = .some (.ok (), after) ∧
      At whole (DiceLang.skipSeparators rest) after := by
  induction rest generalizing pos with
  | nil => simpa [Closed] using h.closed
  | cons token rest ih =>
      by_cases hkind : token.kind = .separator
      · obtain ⟨reading, htaken, -, hrest⟩ := take?_of_pick rfl (ofKind_of_kind hkind)
        obtain ⟨haccept, hreached⟩ := h.accept_of_some (samePick_ofKind (by decide)) htaken
        obtain ⟨after, hskip, hat⟩ := ih (hrest ▸ hreached.at_rest)
        refine ⟨after, ?_, ?_⟩
        · rw [Parser.skipSeparators, loop_apply, skipSeparator, bind_assoc, bind_of_ok haccept]
          simp only [pure_bind]
          exact hskip
        · simpa [DiceLang.skipSeparators, hkind] using hat
      · have hstart : startsWith [.separator] (token :: rest) = false :=
          startsWith_cons.mpr (by simpa using hkind)
        refine ⟨pos, ?_, (skipSeparators_eq_self hstart).symm ▸ h⟩
        rw [Parser.skipSeparators, loop_apply, skipSeparator, bind_assoc,
          bind_of_ok (h.accept_of_none (samePick_ofKind (by decide)) (take?_ofKind_eq_none hstart))]
        simp only [pure_bind, pure_apply]

/-- An expression that only line breaks may follow. -/
theorem wholeExpression_matches (hlegible : Legible whole) (h : At whole rest pos) :
    Matches id (fun _ _ => True) (fun failure abort _ => SameEnd failure abort)
      (Tree.ofTokens limit rest)
      (wholeExpression (invoke (7 * limit)) (whole.map Token.symbol) pos) := by
  refine Matches.bind (expression_mirrored hlegible limit h).guarded fun reading after _ hreading => ?_
  obtain ⟨last, hskip, hlast⟩ := hreading.at_rest.skipSeparators
  rw [bind_of_ok hskip, bind_of_ok hlast.isAtEnd]
  by_cases hend : atEnd (DiceLang.skipSeparators reading.rest) = true
  · rw [if_pos hend, if_pos hend]
    exact .ok trivial
  · obtain ⟨abort, hsame, hcomplain⟩ := hlast.complain (β := Tree) .endOfInput
    rw [if_neg hend, if_neg hend, hcomplain]
    exact .error hsame

/-- What comes before the rest of a block. -/
theorem Matches.prepend {place : Nat → Prop} {told : Failure → Abort → Nat → Prop}
    {block : List Definition} {first : Definition} {x : Except Failure (List Definition)}
    {outcome : Part (Except Abort (List Definition) × Nat)}
    (h : Matches ((block ++ [first]) ++ ·) (fun _ => place) told x outcome) :
    Matches (block ++ ·) (fun _ => place) told (do let others ← x; return first :: others)
      outcome := by
  cases h with
  | ok hfits =>
      rw [List.append_assoc]
      exact .ok hfits
  | error htold => exact .error htold

/-- The definitions of a list are added one by one to those that have been read. -/
theorem definitions_matches (hlegible : Legible whole) (hlimit : 0 < limit) (h : At whole rest pos)
    (block : List Definition) :
    Matches (block ++ ·) (fun _ after => ∃ stop, At whole [stop] after)
      (fun failure abort _ => SameEnd failure abort) (Grammar.definitions limit rest)
      (loop (nextDefinition (invoke (7 * limit + 1))) block (whole.map Token.symbol) pos) := by
  fun_induction Grammar.definitions limit rest generalizing pos block with
  | case1 tokens hend =>
      obtain ⟨stop, rfl, -⟩ := h.closed.eq_singleton hend
      rw [loop_apply, nextDefinition, bind_assoc, bind_of_ok h.isAtEnd, if_pos hend]
      have hnothing : Part.some (Except.ok block, pos) =
          (Part.some (Except.ok (block ++ []), pos) : Part (Except Abort (List Definition) × Nat)) := by
        rw [List.append_nil]
      rw [pure_bind]
      dsimp only
      rw [pure_apply, hnothing]
      exact .ok ⟨stop, h⟩
  | case2 tokens hend ih =>
      rw [loop_apply, nextDefinition, bind_assoc, bind_of_ok h.isAtEnd, if_neg hend, bind_assoc]
      refine Matches.bind (invoke_definition_mirrored hlegible hlimit h).guarded ?_
      intro first after _ hfirst
      rw [bind_assoc, bind_of_ok hfirst.at_rest.isAtEnd]
      by_cases hlast : atEnd first.rest = true
      · obtain ⟨stop, hstop, -⟩ := hfirst.at_rest.closed.eq_singleton hlast
        rw [if_pos hlast, if_pos hlast, pure_bind]
        exact .ok ⟨stop, hstop ▸ hfirst.at_rest⟩
      · rw [if_neg hlast, if_neg hlast, bind_assoc]
        refine Matches.bind (hfirst.at_rest.consume (by decide) .lineBreak) fun gap next _ hgap => ?_
        obtain ⟨place, hskip, hplace⟩ := hgap.at_rest.skipSeparators
        rw [bind_assoc, bind_of_ok hskip, pure_bind]
        exact (ih first gap hplace (block ++ [first.value])).prepend

/-- At the end of a closed list its span goes through the symbol before the end token, or is that of
the end token if there is nothing else. -/
theorem At.spanFrom_stop {first stop : Token} {others : List Token}
    (h : At (first :: others) [stop] pos) (hclosed : Closed (first :: others)) :
    ∃ span, tokensSpan? (first :: others) = some span ∧
      spanFrom first.symbol ((first :: others).map Token.symbol) pos = .some (.ok span, pos) := by
  have hsplit : (first :: others).take pos ++ [stop] = first :: others := by
    rw [← h.drop_eq, List.take_append_drop]
  have hstop : stop.kind = .eof := by simpa [Closed] using h.closed
  cases pos with
  | zero =>
      obtain ⟨rfl, rfl⟩ : stop = first ∧ [] = others := List.cons.inj hsplit
      refine ⟨stop.span, ?_, spanFrom_of_last rfl⟩
      simp [tokensSpan?, hstop]
  | succ before =>
      have hfront := (hsplit.symm ▸ hclosed : Closed _).kind_ne_eof
      obtain ⟨span, hspan, ⟨start, hstart, hfrom⟩, last, hlast, hthrough⟩ :=
        Grammar.over_tokensSpan? (by simp) hfront hstop
      rw [hsplit] at hspan
      obtain rfl : first = start := Option.some.inj hstart
      have hplace : (first :: others)[before]? = some last := by
        obtain ⟨hlength, -⟩ := List.getElem?_eq_some_iff.mp h.getElem?
        have hsome := List.getElem?_eq_getElem (Nat.lt_of_succ_lt hlength)
        rw [List.getLast?_take, if_neg (Nat.succ_ne_zero before), Nat.add_sub_cancel, hsome] at hlast
        exact hsome.trans hlast
      refine ⟨span, hspan, ?_⟩
      rw [spanFrom_of_last hplace, Span.through, hfrom, hthrough]

/-- A block of definitions, from the first symbol on. -/
theorem wholeProgram_matches {tokens : List Token} (hclosed : Closed tokens)
    (hlegible : Legible tokens) (hlimit : 0 < limit) :
    Matches id (fun _ _ => True) (fun failure abort _ => SameEnd failure abort)
      (Program.ofTokens limit tokens)
      (wholeProgram (invoke (7 * limit + 1)) (tokens.map Token.symbol) 0) := by
  have hat := At.first hclosed
  obtain ⟨first, others, rfl⟩ := hat.exists_cons
  obtain ⟨start, hskip, hstart⟩ := hat.skipSeparators
  unfold wholeProgram
  rw [bind_of_ok hat.current, bind_of_ok hskip]
  refine Matches.bind (definitions_matches hlegible hlimit hstart []) fun block after _ hlast => ?_
  obtain ⟨stop, hstop⟩ := hlast
  obtain ⟨span, hspan, hfrom⟩ := hstop.spanFrom_stop hclosed
  rw [bind_of_ok hfrom, hspan]
  exact .ok trivial

end Whole

section Outcomes

variable {α : Type} {limit : Nat} {tokens : List Token}

/-- What comes of parsing is what a reader makes of the list: the same value or the same mistake, or
the numeral that the reader cannot convert. -/
inductive Settles : Except Failure α → Part (Except Abort α) → Prop
  | ok (a : α) : Settles (.ok a) (.some (.ok a))
  | error {failure : Failure} {abort : Abort} (h : SameEnd failure abort) :
      Settles (.error failure) (.some (.error abort))

/-- At most one outcome of a reader goes with what comes of parsing. -/
theorem Settles.eq {x y : Except Failure α} {outcome : Part (Except Abort α)}
    (hx : Settles x outcome) (hy : Settles y outcome) : x = y := by
  cases hx with
  | ok a =>
      generalize hsome : Part.some (Except.ok a) = outcome at hy
      cases hy with
      | ok b => exact congrArg Except.ok (Except.ok.inj (Part.some_inj.mp hsome))
      | error => cases Part.some_inj.mp hsome
  | @error failure abort hfirst =>
      generalize hsome : Part.some (Except.error abort) = outcome at hy
      cases hy with
      | ok => cases Part.some_inj.mp hsome
      | @error other abort' hsecond =>
          obtain rfl : abort = abort' := Except.error.inj (Part.some_inj.mp hsome)
          cases hfirst with
          | fault => cases hsecond; rfl
          | overlong => cases hsecond; rfl

/-- Where the reader has a value it is what comes of parsing. -/
theorem Settles.eq_some {a : α} {outcome : Part (Except Abort α)} (h : Settles (.ok a) outcome) :
    outcome = .some (.ok a) := by
  cases h
  rfl

/-- What comes of a parser without a text to quote. -/
theorem Matches.settles {fits : α → Nat → Prop} {x : Except Failure α} {m : Parser α}
    {symbols : List Symbol}
    (h : Matches id fits (fun failure abort _ => SameEnd failure abort) x (m symbols 0)) :
    Settles x (outcome m none symbols) := by
  unfold outcome
  generalize m symbols 0 = reached at h
  cases h with
  | ok =>
      rw [Part.map_some]
      exact .ok _
  | error hsame =>
      rw [Part.map_some]
      exact .error hsame

/-- What comes of a parser that quotes a text. -/
theorem Matches.settles_quoting {fits : α → Nat → Prop} {x : Except Failure α} {m : Parser α}
    {symbols : List Symbol}
    (h : Matches id fits (fun failure abort _ => SameEnd failure abort) x (m symbols 0))
    (text : String) :
    Settles (x.mapError (Failure.quoting text)) (outcome m (some text) symbols) := by
  unfold outcome
  generalize m symbols 0 = reached at h
  cases h with
  | ok =>
      rw [Part.map_some]
      exact .ok _
  | error hsame =>
      rw [Part.map_some]
      cases hsame with
      | fault mistake => exact .error (.fault (mistake.quoting text))
      | overlong lexeme => exact .error (.overlong lexeme)

/-- **Agreement, for expressions.**  Seven calls are open for every expression that is. -/
theorem parseExpression_settles (hclosed : Closed tokens) (hlegible : Legible tokens) (limit : Nat) :
    Settles (Tree.ofTokens limit tokens)
      (parseExpression (7 * limit) none (tokens.map Token.symbol)) :=
  (wholeExpression_matches hlegible (At.first hclosed)).settles

/-- **Agreement, for blocks of definitions.** -/
theorem parseProgram_settles (hclosed : Closed tokens) (hlegible : Legible tokens)
    (hlimit : 0 < limit) :
    Settles (Program.ofTokens limit tokens)
      (parseProgram (7 * limit + 1) none (tokens.map Token.symbol)) :=
  (wholeProgram_matches hclosed hlegible hlimit).settles

/-- The numerals of a text are runs of digits. -/
theorem legible_tokenize (text : String) : Legible (tokenize text) := by
  intro token htoken hkind
  have hend : token.kind ≠ .eof := by simp [hkind]
  obtain ⟨-, chars, -, -, -, -, hlexeme, hshaped⟩ := exists_cut htoken hend
  rw [hkind] at hshaped
  rw [hlexeme, String.toList_ofList]
  cases hshaped with
  | number hsome hdigits => exact ⟨hsome, hdigits⟩
  | sign hspelt => simp [Kind.spellings] at hspelt

/-- **Agreement, for texts.**  What the readers make of a text is what comes of parsing its tokens. -/
theorem parse_settles (text : String) :
    Settles (Tree.parse text)
      (parseExpression (7 * nestingLimit) (some text) ((tokenize text).map Token.symbol)) ∧
    Settles (Program.parse text)
      (parseProgram (7 * nestingLimit + 1) (some text) ((tokenize text).map Token.symbol)) := by
  have hclosed := closed_tokenize text
  have hlegible := legible_tokenize text
  constructor
  · exact (wholeExpression_matches hlegible (At.first hclosed)).settles_quoting text
  · exact (wholeProgram_matches hclosed hlegible (by decide)).settles_quoting text

end Outcomes

end Parser

end DiceLang
