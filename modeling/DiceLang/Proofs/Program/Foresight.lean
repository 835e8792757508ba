import DiceLang.Proofs.Program.Complete
import DiceLang.Proofs.Tree.Foresight

/-!
# Foresight of the readers of definitions

The readers of patterns and of definitions foresee like those of expressions.  A pattern may also stop
at a parameter that repeats the one before it.

For whole lists, `program_halts` says where reading stops: behind the beginning of a block of
definitions, and at a token with which no block goes on.
-/

namespace DiceLang

namespace Grammar

open Pass (choice token)

/-- The trees of a phrase. -/
def Phrase.trees : Phrase → List Tree
  | primary tree | command tree | product tree | sum tree | relation tree | expression tree => [tree]
  | arguments trees => trees

/-- The trees of the grammar have no spans. -/
theorem Spells.erase_eq {tokens : List Token} {phrase : Phrase} (h : Spells tokens phrase) :
    ∀ tree ∈ phrase.trees, tree.erase = tree := by
  induction h with
  | @call _ _ _ _ args _ _ _ _ _ ih =>
      have hargs : args.map Tree.erase = args := (List.map_congr_left ih).trans (List.map_id args)
      simp [Phrase.trees, Tree.erase, Tree.eraseAll_eq_map, hargs]
  | further _ _ _ ihl ihr => exact List.forall_mem_append.mpr ⟨ihl, ihr⟩
  | _ => simp_all [Phrase.trees, Tree.erase, Tree.eraseAll]

section Patterns

variable {α : Type} {tokens : List Token}

/-- What may stand behind a quoted parameter: another one, which must differ. -/
def secondParameter (left : Token) : Pass :=
  choice [.identifier] (fun right rest =>
    if right.lexeme = left.lexeme then
      .error (.ofCause (.duplicateParameter right.lexeme) right.span)
    else .ok rest) .ok

/-- A parameter between quotes goes over a name and the closing quote. -/
theorem quotedParameter_bind (opening : Reading Token tokens) (next : Token → Pass) :
    (quotedParameter opening >>= fun left => next left.value left.rest) =
      token .identifier .parameterName (fun left => token .quote .quote fun _ => next left)
        opening.rest := by
  rw [← expect_bind]
  unfold quotedParameter
  rw [bind_assoc]
  refine congrArg _ (funext fun name => ?_)
  rw [← expect_bind, bind_assoc]
  rfl

/-- A pattern goes over names and quotes, one way or the other, as the first token says. -/
theorem pass_pattern :
    pass pattern = choice [.quote]
      (fun _ => token .identifier .parameterName fun _ => token .quote .quote fun _ =>
        token .identifier .commandName fun _ => .ok)
      (token .identifier .commandNameOrQuote fun _ => choice [.quote]
        (fun _ => token .identifier .parameterName fun left => token .quote .quote fun _ =>
          secondParameter left) .ok) := by
  funext tokens
  unfold pass pattern
  split
  · next opening hopening =>
      rw [choice_of_some (picks_ofKind _) hopening, ← quotedParameter_bind, map_bind]
      refine congrArg _ (funext fun parameter => ?_)
      rw [← expect_bind, map_bind]
      rfl
  · next hnone =>
      rw [choice_of_none (picks_ofKind _) hnone, ← expect_bind, map_bind]
      refine congrArg _ (funext fun name => ?_)
      split
      · next hquote =>
          rw [choice_of_none (picks_ofKind _) hquote]
          rfl
      · next opening hopening =>
          rw [choice_of_some (picks_ofKind _) hopening, ← quotedParameter_bind, map_bind]
          refine congrArg _ (funext fun left => ?_)
          unfold secondParameter
          split
          · next hright =>
              rw [choice_of_none (picks_ofKind _) hright]
              rfl
          · next right hright =>
              obtain ⟨hkind, hfirst⟩ := take?_ofKind_eq_some hright
              refine Eq.trans ?_ (congrArg (choice _ _ _) hfirst.takes).symm
              refine Eq.trans ?_ (Pass.choice_of_mem (List.mem_singleton.mpr hkind)).symm
              split <;> rfl

/-- The language of patterns. -/
def PatternLevel (tokens : List Token) : Prop := ∃ value, SpellsPattern tokens value

/-- A second parameter that is the same as the first is itself to blame. -/
theorem secondParameter_foresees {name opening left closing : Token}
    (hname : name.kind = .identifier) (hopening : opening.kind = .quote)
    (hleft : left.kind = .identifier) (hclosing : closing.kind = .quote) (tokens : List Token) :
    Foresees [name, opening, left, closing]
      (fun taken => PatternLevel (name :: opening :: left :: closing :: taken))
      (secondParameter left) tokens := by
  have hone : PatternLevel [name, opening, left, closing] :=
    ⟨_, .prefixed hname hopening hleft hclosing⟩
  refine foresees_choice ?_ fun _ => foresees_stay hone
  rintro right rest rfl hmem
  have hright : right.kind = .identifier := List.mem_singleton.mp hmem
  by_cases hsame : right.lexeme = left.lexeme
  · simp only [if_pos hsame]
    refine ⟨nofun, fun hfail => .inr ⟨[], right :: rest, rfl, ?_, ⟨[], hone⟩, fun _ _ => hfail⟩⟩
    cases hfail
    exact .repeated hname hopening hleft hclosing hright hsame [] rest
  · simp only [if_neg hsame]
    exact (foresees_stay ⟨_, .infixed hname hopening hleft hclosing hright hsame⟩).cons

/-- Patterns are foreseen. -/
theorem pattern_foresees (tokens : List Token) :
    Foresees [] PatternLevel (pass pattern) tokens := by
  rw [pass_pattern]
  refine foresees_choice ?_ fun _ => ?_
  · rintro opening rest rfl hmem
    have hopening : opening.kind = .quote := List.mem_singleton.mp hmem
    have hall : ∀ parameter closing name : Token, parameter.kind = .identifier →
        closing.kind = .quote → name.kind = .identifier →
        PatternLevel [opening, parameter, closing, name] :=
      fun _ _ _ hparameter hclosing hname => ⟨_, .postfixed hopening hparameter hclosing hname⟩
    refine Foresees.cons (foresees_token (fun parameter _ _ hparameter => ?_)
      ⟨[placed .identifier "", placed .quote "", placed .identifier ""], hall _ _ _ rfl rfl rfl⟩)
    refine foresees_token (fun closing _ _ hclosing => ?_)
      ⟨[placed .quote "", placed .identifier ""], hall _ _ _ hparameter rfl rfl⟩
    exact foresees_single fun name hname => hall parameter closing name hparameter hclosing hname
  · refine foresees_token (fun name rest _ hname => ?_) ⟨[placed .identifier ""], _, .nullary rfl⟩
    refine foresees_choice ?_ fun _ => foresees_stay ⟨_, .nullary hname⟩
    rintro opening others rfl hmem
    have hopening : opening.kind = .quote := List.mem_singleton.mp hmem
    have hall : ∀ parameter closing : Token, parameter.kind = .identifier → closing.kind = .quote →
        PatternLevel [name, opening, parameter, closing] :=
      fun _ _ hparameter hclosing => ⟨_, .prefixed hname hopening hparameter hclosing⟩
    refine Foresees.cons (foresees_token (fun left _ _ hleft => ?_)
      ⟨[placed .identifier "", placed .quote ""], hall _ _ rfl rfl⟩)
    refine foresees_token (fun closing _ _ hclosing => ?_) ⟨[placed .quote ""], hall _ _ hleft rfl⟩
    exact secondParameter_foresees hname hopening hleft hclosing _

/-- The language of definitions. -/
def DefinitionLevel (tokens : List Token) : Prop := ∃ value, SpellsDefinition tokens value

/-- A definition goes over a pattern, an arrow and an expression. -/
theorem pass_definition (limit : Nat) :
    pass (definition limit) =
      (pass pattern).andThen (token .arrow .arrow fun _ => pass (expression limit)) := by
  funext tokens
  rw [pass_andThen]
  unfold pass definition
  rw [map_bind]
  refine congrArg _ (funext fun head => ?_)
  rw [← expect_bind, map_bind]
  refine congrArg _ (funext fun arrow => ?_)
  rw [map_bind]
  cases expression limit arrow.rest <;> rfl

/-- **Foresight of definitions.** -/
theorem definition_foresees (limit : Nat) (tokens : List Token) :
    Foresees [] DefinitionLevel (pass (definition limit)) tokens := by
  have hsome : ∃ tokens arrow body, tokens = arrow :: body ∧ arrow.kind = .arrow ∧
      Level .expression body :=
    ⟨_, placed .arrow "", [placed .identifier ""], rfl, rfl, _,
      .unequated (.unordered (.summand (.factor (.nullary rfl))))⟩
  rw [pass_definition]
  refine (pattern_foresees tokens).andThen (fun _ _ => ?_) hsome ?_
  · refine foresees_token (fun arrow rest _ harrow => ?_) hsome
    exact ((expression_foresees limit rest).behind _).mono
      fun body hbody => ⟨arrow, body, rfl, harrow, hbody⟩
  · rintro head _ ⟨⟨form, parameters⟩, hhead⟩ ⟨arrow, body, rfl, harrow, tree, hbody⟩
    have herase : tree.erase = tree := hbody.erase_eq tree List.mem_cons_self
    exact ⟨⟨form, parameters, tree, none⟩, .arrow hhead harrow (herase.symm ▸ hbody)⟩

end Patterns

section Whole

variable {limit : Nat} {tokens : List Token} {failure : Failure}

/-- Behind a definition there is the end or a line break. -/
theorem definitions_of_refused {reading : Reading Definition tokens} (hsome : ¬ atEnd tokens = true)
    (hreading : definition limit tokens = .ok reading) (hend : ¬ atEnd reading.rest = true)
    (hsep : startsWith [.separator] reading.rest = false) :
    definitions limit tokens = .error (refuse .lineBreak reading.rest) := by
  rw [definitions, if_neg hsome, hreading, ok_bind, if_neg hend, expect_of_startsWith hsep]
  rfl

/-- The beginnings of blocks of definitions, before the end token. -/
def SomeLines (tokens : List Token) : Prop := ∃ block, Lines tokens block

/-- The end is no part of the beginning of any lines. -/
theorem SomeLines.kind_ne_eof {front : List Token} (h : Viable SomeLines front) :
    ∀ token ∈ front, token.kind ≠ .eof := by
  obtain ⟨more, block, hlines⟩ := h
  exact fun token htoken => hlines.kind_ne_eof token (List.mem_append_left more htoken)

/-- Where a definition is read, it is read before all lists that start alike. -/
theorem exists_definition {line rest : List Token}
    (hsteady : Steady (pass (definition limit)) line rest .ok) {other : List Token}
    (hother : other.head? = rest.head?) : ∃ reading : Reading Definition (line ++ other),
      definition limit (line ++ other) = .ok reading ∧ reading.rest = other :=
  map_eq_ok (hsteady other hother)

/-- Reading stops within a definition. -/
theorem halts_within (hsome : ¬ atEnd tokens = true)
    (h : definition limit tokens = .error failure) :
    TooDeep failure ∨ ∃ front rest, tokens = front ++ rest ∧
      Halts SomeLines (definitions limit) failure front rest := by
  have hfail : pass (definition limit) tokens = .error failure := by
    rw [pass, h]
    rfl
  rcases (definition_foresees limit tokens).halts hfail with
    hdeep | ⟨front, rest, rfl, hstops, ⟨more, value, hmore⟩, hsteady⟩
  · exact .inl hdeep
  · have hviable : Viable SomeLines front := ⟨more, _, .last hmore⟩
    refine .inr ⟨front, rest, rfl, hstops, SomeLines.kind_ne_eof hviable, hviable, ?_⟩
    intro other hother
    rw [← atEnd_congr (head?_append_congr front hother)] at hsome
    rw [definitions, if_neg hsome, map_eq_error (hsteady other hother)]
    rfl

/-- Reading stops behind a definition that is followed neither by the end nor by a line break. -/
theorem halts_behind {line rest : List Token} {value : Definition}
    (hsome : ¬ atEnd (line ++ rest) = true) (hline : SpellsDefinition line value)
    (hsteady : Steady (pass (definition limit)) line rest .ok) (hend : ¬ atEnd rest = true)
    (hsep : startsWith [.separator] rest = false) :
    Halts SomeLines (definitions limit) (refuse .lineBreak rest) line rest := by
  have hviable : Viable SomeLines line := ⟨[], [value], by simpa using Lines.last hline⟩
  refine ⟨.refused _ _ _, SomeLines.kind_ne_eof hviable, hviable, ?_⟩
  intro other hother
  obtain ⟨reading, hreading, hrest⟩ := exists_definition hsteady hother
  have hsome' : ¬ atEnd (line ++ other) = true := by
    rwa [atEnd_congr (head?_append_congr line hother)]
  have hend' : ¬ atEnd reading.rest = true := by rwa [hrest, atEnd_congr hother]
  have hsep' : startsWith [.separator] reading.rest = false := by
    rwa [hrest, startsWith_congr _ hother]
  rw [definitions_of_refused hsome' hreading hend' hsep', hrest]
  exact congrArg Except.error (refuse_congr _ hother)

/-- Where reading stops behind a line break, it stops behind the definition before that as well. -/
theorem halts_later {line gap front rest : List Token} {sep : Token} {value : Definition}
    (hsome : ¬ atEnd (line ++ sep :: (gap ++ (front ++ rest))) = true)
    (hline : SpellsDefinition line value)
    (hsteady : Steady (pass (definition limit)) line (sep :: (gap ++ (front ++ rest))) .ok)
    (hsep : sep.kind = .separator) (hgap : ∀ token ∈ gap, token.kind = .separator)
    (hrest : startsWith [.separator] (front ++ rest) = false)
    (h : Halts SomeLines (definitions limit) failure front rest) :
    Halts SomeLines (definitions limit) failure (line ++ sep :: (gap ++ front)) rest := by
  have hviable : Viable SomeLines (line ++ sep :: (gap ++ front)) := by
    obtain ⟨more, block, hmore⟩ := h.viable
    refine ⟨more, value :: block, ?_⟩
    simpa using Lines.more hline hsep (hmore.gaps hgap)
  have hstops : Stops failure (line ++ sep :: (gap ++ front)) rest := by
    simpa using h.stops.behind (line ++ sep :: gap)
  refine ⟨hstops, SomeLines.kind_ne_eof hviable, hviable, ?_⟩
  intro other hother
  have hsame : (sep :: (gap ++ (front ++ other))).head? =
      (sep :: (gap ++ (front ++ rest))).head? := rfl
  obtain ⟨reading, hreading, hbehind⟩ := exists_definition hsteady hsame
  have hsome' : ¬ atEnd (line ++ sep :: (gap ++ (front ++ other))) = true := by
    rwa [atEnd_congr (head?_append_congr line hsame)]
  have hskip : skipSeparators (gap ++ (front ++ other)) = front ++ other := by
    refine skipSeparators_append hgap ?_
    rwa [startsWith_congr _ (head?_append_congr front hother)]
  have hread := definitions_of_definition hsome' hreading hbehind hsep
  rw [hskip, h.steady other hother] at hread
  rw [List.append_assoc, List.cons_append, List.append_assoc]
  exact hread

/-- **Where the reading of definitions stops.** -/
theorem definitions_halts (h : definitions limit tokens = .error failure) :
    TooDeep failure ∨ ∃ front rest, tokens = front ++ rest ∧
      Halts SomeLines (definitions limit) failure front rest := by
  fun_induction definitions limit tokens with
  | case1 tokens hend => cases h
  | case2 tokens hsome ih =>
      rcases bind_eq_error h with hfirst | ⟨first, hfirst, hmore⟩
      · exact halts_within hsome hfirst
      have hpass : pass (definition limit) tokens = .ok first.rest := by
        rw [pass, hfirst]
        rfl
      obtain ⟨line, htokens, ⟨value, hline⟩, hsteady⟩ := (definition_foresees limit tokens).reads hpass
      split at hmore
      · cases hmore
      · next hend =>
          rw [htokens] at hsome
          rcases bind_eq_error hmore with hgap | ⟨gap, hgap, hothers⟩
          · have hsep : startsWith [.separator] first.rest = false := startsWith_of_expect hgap
            rw [expect_eq_error hgap]
            exact .inr ⟨line, first.rest, htokens, halts_behind hsome hline hsteady hend hsep⟩
          · obtain ⟨hsep, hbreak⟩ := expect_eq_ok hgap
            obtain ⟨further, hfurther, hall⟩ := skipSeparators_eq gap.rest
            have hfail : definitions limit (skipSeparators gap.rest) = .error failure :=
              map_eq_error hothers
            rcases ih first gap hfail with hdeep | ⟨front, rest, hsplit, hhalts⟩
            · exact .inl hdeep
            · rw [hsplit] at hfurther
              have hbehind : first.rest = gap.value :: (further ++ (front ++ rest)) :=
                hbreak.takes.trans (congrArg (gap.value :: ·) hfurther)
              have hnot : startsWith [.separator] (front ++ rest) = false :=
                hsplit ▸ startsWith_skipSeparators gap.rest
              rw [hbehind] at hsome hsteady htokens
              refine .inr ⟨_, rest, ?_, halts_later hsome hline hsteady hsep hall hnot hhalts⟩
              simpa using htokens

/-- A whole list is a block of definitions. -/
abbrev IsListing (tokens : List Token) : Prop := ∃ block, Listing tokens block

/-- **Where the reading of a block stops.** -/
theorem program_halts (h : Program.ofTokens limit tokens = .error failure) :
    TooDeep failure ∨ ∃ front rest, tokens = front ++ rest ∧
      Halts IsListing (Program.ofTokens limit) failure front rest := by
  obtain ⟨gap, htokens, hgap⟩ := skipSeparators_eq tokens
  have hfail : definitions limit (skipSeparators tokens) = .error failure := map_eq_error h
  rcases definitions_halts hfail with hdeep | ⟨front, rest, hsplit, hhalts⟩
  · exact .inl hdeep
  · obtain ⟨more, block, hlines⟩ := hhalts.viable
    have hwhole : Lines (gap ++ (front ++ more)) block := hlines.gaps hgap
    refine .inr ⟨gap ++ front, rest, ?_, hhalts.stops.behind gap, ?_, ?_, ?_⟩
    · rw [List.append_assoc, ← hsplit]
      exact htokens
    · refine List.forall_mem_append.mpr ⟨fun token htoken => ?_, hhalts.unended⟩
      simp [hgap token htoken]
    · refine ⟨more ++ [placed .eof ""], block, ?_⟩
      simpa using hwhole.listing (rfl : (placed .eof "").kind = .eof)
    · intro other hother
      have hskip : skipSeparators (gap ++ (front ++ other)) = front ++ other := by
        refine skipSeparators_append hgap ?_
        rw [startsWith_congr _ (head?_append_congr front hother), ← hsplit]
        exact startsWith_skipSeparators tokens
      unfold Program.ofTokens
      rw [List.append_assoc, hskip, hhalts.steady other hother]
      rfl

end Whole

end Grammar

end DiceLang
