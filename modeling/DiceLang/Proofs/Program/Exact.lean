import DiceLang.Proofs.Offence
import Mathlib.Data.List.DropRight

/-!
# Reading definitions is exact

`Program.ofTokens` reads the blocks of the grammar and nothing else, and a list that is no block is
refused for a mistake with one of the codes E101 to E105 (`program_exact`).

The last of them is for patterns with the same parameter twice.  It is told from the others by where
the list stops being the beginning of a block: at the second parameter of a pattern.  A pattern is
found at the start of a line only (`lineStart_of_pattern`), and what stands before it has been read by
then.
-/

namespace DiceLang

namespace Grammar

/-- Behind these tokens a line starts. -/
def LineStart (front : List Token) : Prop := ∀ last ∈ front.getLast?, last.kind = .separator

section Lines

variable {front back more : List Token} {block : List Definition}

/-- At the start of a line there is nothing in front of it, or a line break. -/
theorem LineStart.cases (h : LineStart front) :
    front = [] ∨ ∃ lines sep, front = lines ++ [sep] ∧ sep.kind = .separator := by
  rcases List.eq_nil_or_concat' front with hnil | ⟨lines, sep, rfl⟩
  · exact .inl hnil
  · exact .inr ⟨lines, sep, rfl, h sep (by simp)⟩

/-- Every list has a last line, which starts somewhere. -/
theorem exists_lineStart (tokens : List Token) :
    ∃ front line, tokens = front ++ line ∧ LineStart front ∧
      ∀ token ∈ line, token.kind ≠ .separator := by
  let inLine : Token → Bool := fun token => !isKind .separator token
  refine ⟨tokens.rdropWhile inLine, tokens.rtakeWhile inLine,
    List.rdropWhile_append_rtakeWhile.symm, ?_, ?_⟩
  · intro last hlast
    obtain ⟨hsome, rfl⟩ := List.mem_getLast?_eq_getLast hlast
    simpa [inLine, isKind] using List.rdropWhile_last_not inLine tokens hsome
  · intro token htoken
    simpa [inLine, isKind] using List.mem_rtakeWhile_imp htoken

/-- A block of definitions is taken apart at the start of a line. -/
theorem Lines.split_lineStart (h : Lines (front ++ back) block) (hfront : LineStart front) :
    ∃ first second, Lines front first ∧ Lines back second := by
  rcases hfront.cases with rfl | ⟨lines, sep, rfl, hsep⟩
  · exact ⟨[], block, .nil, h⟩
  · obtain ⟨first, second, -, hfirst, hsecond⟩ :=
      h.split hsep (List.append_assoc lines [sep] back)
    exact ⟨first, second, (lines_append_gaps_iff (List.forall_mem_singleton.mpr hsep)).mpr hfirst,
      hsecond⟩

/-- What stands before the first line break is the beginning of a definition. -/
theorem Lines.exists_definition (h : Lines (front ++ more) block) (hsome : front ≠ [])
    (hfront : ∀ token ∈ front, token.kind ≠ .separator) :
    ∃ behind definition, SpellsDefinition (front ++ behind) definition := by
  generalize htokens : front ++ more = tokens at h
  cases h with
  | nil => exact absurd (List.append_eq_nil_iff.mp htokens).1 hsome
  | @gap sep rest _ hsep =>
      obtain ⟨first, others, rfl⟩ := List.exists_cons_of_ne_nil hsome
      obtain ⟨rfl, -⟩ := List.cons.inj htokens
      exact absurd hsep (hfront first List.mem_cons_self)
  | last hline => exact ⟨more, _, htokens ▸ hline⟩
  | @more line rest sep definition _ hline hsep =>
      rcases List.append_eq_append_iff.mp htokens with ⟨behind, rfl, -⟩ | ⟨behind, rfl, hbehind⟩
      · exact ⟨behind, definition, hline⟩
      · cases behind with
        | nil => exact ⟨[], definition, by simpa using hline⟩
        | cons token behind =>
            obtain ⟨rfl, -⟩ := List.cons.inj hbehind
            exact absurd hsep (hfront sep (by simp))

end Lines

section Start

variable {front back tokens : List Token} {name opening left closing : Token}

/-- A name and a quote stand at the start of a pattern or nowhere in it. -/
theorem SpellsPattern.front_eq_nil {pattern : Pattern} (h : SpellsPattern tokens pattern)
    (hname : name.kind = .identifier)
    (htokens : tokens = front ++ name :: opening :: left :: closing :: back) : front = [] := by
  have hlength := congrArg List.length htokens
  cases h with
  | nullary =>
      simp at hlength
      omega
  | prefixed | postfixed =>
      refine List.length_eq_zero_iff.mp ?_
      simp at hlength
      omega
  | @infixed first quote _ _ _ _ hquote =>
      rcases front with _ | ⟨token, _ | ⟨token', front⟩⟩
      · rfl
      · simp only [List.cons_append, List.nil_append, List.cons.injEq] at htokens
        obtain ⟨-, rfl, -⟩ := htokens
        cases hname.symm.trans hquote
      · simp at hlength
        omega

/-- A name and a quoted one stand at the start of a definition only. -/
theorem SpellsDefinition.front_eq_nil {definition : Definition}
    (h : SpellsDefinition tokens definition) (hname : name.kind = .identifier)
    (hclosing : closing.kind = .quote)
    (htokens : tokens = front ++ name :: opening :: left :: closing :: back) : front = [] := by
  obtain @⟨head, body, arrow, _, hhead, harrow, hbody⟩ := h
  have hsplit : head ++ arrow :: body = (front ++ [name, opening, left]) ++ closing :: back := by
    simpa using htokens
  rcases List.append_eq_append_iff.mp hsplit with ⟨middle, -, hrest⟩ | ⟨middle, rfl, hrest⟩
  · have hmem : closing ∈ arrow :: body := by simp [hrest]
    rcases List.mem_cons.mp hmem with rfl | hmem
    · cases hclosing.symm.trans harrow
    · simpa [hclosing, isPlain] using hbody.kinds closing hmem
  · cases middle with
    | nil =>
        obtain ⟨rfl, -⟩ := List.cons.inj hrest
        cases hclosing.symm.trans harrow
    | cons token middle =>
        obtain ⟨rfl, -⟩ := List.cons.inj hrest
        have hwhole : front ++ [name, opening, left] ++ closing :: middle =
            front ++ name :: opening :: left :: closing :: middle := by simp
        exact hhead.front_eq_nil hname hwhole

/-- **A pattern with a quoted parameter behind its name stands at the start of a line.** -/
theorem lineStart_of_pattern (h : Viable SomeLines (front ++ [name, opening, left, closing]))
    (hname : name.kind = .identifier) (hopening : opening.kind = .quote)
    (hleft : left.kind = .identifier) (hclosing : closing.kind = .quote) : LineStart front := by
  obtain ⟨more, block, hlines⟩ := h
  obtain ⟨before, line, rfl, hbefore, hline⟩ := exists_lineStart front
  have hsplit : Lines (before ++ (line ++ [name, opening, left, closing] ++ more)) block := by
    simpa using hlines
  obtain ⟨-, second, -, hsecond⟩ := hsplit.split_lineStart hbefore
  have hkinds : ∀ token ∈ line ++ [name, opening, left, closing], token.kind ≠ .separator :=
    List.forall_mem_append.mpr ⟨hline, by simp [hname, hopening, hleft, hclosing]⟩
  obtain ⟨behind, definition, hdefinition⟩ := hsecond.exists_definition (by simp) hkinds
  have hwhole : line ++ [name, opening, left, closing] ++ behind =
      line ++ name :: opening :: left :: closing :: behind := by simp
  rwa [hdefinition.front_eq_nil hname hclosing hwhole, List.append_nil]

/-- The beginning of a block, without its end token, is the beginning of some lines. -/
theorem viable_lines (h : Viable IsListing front) (hfront : ∀ token ∈ front, token.kind ≠ .eof) :
    Viable SomeLines front := by
  obtain ⟨more, block, hlisting⟩ := h
  obtain ⟨body, stop, htokens, hstop, hbody⟩ := listing_iff.mp hlisting
  rcases List.eq_nil_or_concat' more with rfl | ⟨more, last, rfl⟩
  · refine absurd hstop (hfront stop ?_)
    rw [← List.append_nil front, htokens]
    simp
  · rw [← List.append_assoc] at htokens
    obtain ⟨rfl, -⟩ := List.append_inj' htokens rfl
    exact ⟨more, block, hbody⟩

end Start

section Repeated

variable {limit : Nat} {front back : List Token} {name opening left closing right : Token}

/-- The token at a place is the second parameter of an infix pattern, and the same as the first. -/
inductive RepeatsParameter : List Token → Nat → Prop
  | infixed {front back : List Token} {name opening left closing right : Token}
      (hfront : LineStart front)
      (hname : name.kind = .identifier)
      (hopening : opening.kind = .quote)
      (hleft : left.kind = .identifier)
      (hclosing : closing.kind = .quote)
      (hright : right.kind = .identifier)
      (hsame : right.lexeme = left.lexeme) :
      RepeatsParameter (front ++ name :: opening :: left :: closing :: right :: back)
        (front.length + 4)

/-- A block that starts with a repeated parameter is refused for that. -/
theorem definitions_of_repeated (hname : name.kind = .identifier) (hopening : opening.kind = .quote)
    (hleft : left.kind = .identifier) (hclosing : closing.kind = .quote)
    (hright : right.kind = .identifier) (hsame : right.lexeme = left.lexeme) :
    definitions limit (name :: opening :: left :: closing :: right :: back) =
      .error (.ofCause (.duplicateParameter right.lexeme) right.span) := by
  have hpass : pass pattern (name :: opening :: left :: closing :: right :: back) =
      .error (.ofCause (.duplicateParameter right.lexeme) right.span) := by
    rw [pass_pattern]
    simp [Pass.choice, Pass.token, secondParameter, *]
  have hsome : ¬ atEnd (name :: opening :: left :: closing :: right :: back) = true := by
    simp [atEnd, hname]
  rw [definitions, if_neg hsome, definition, map_eq_error hpass]
  rfl

/-- The lines before the start of another one are read first. -/
theorem definitions_lineStart {tail : List Token} {block : List Definition}
    (h : Lines front block) (hfront : LineStart front) (hfit : Fit limit front)
    (htail : startsWith [.separator] tail = false) :
    ∃ read : List Definition, definitions limit (skipSeparators (front ++ tail)) =
      (definitions limit tail).map (read ++ ·) := by
  rcases hfront.cases with rfl | ⟨lines, sep, rfl, hsep⟩
  · refine ⟨[], ?_⟩
    rw [List.nil_append, skipSeparators_eq_self htail]
    cases definitions limit tail <;> rfl
  · have hlines : Lines lines block :=
      (lines_append_gaps_iff (List.forall_mem_singleton.mpr hsep)).mp h
    have hbreak : startsWith [.separator, .eof] (sep :: tail) = true := by simp [startsWith, hsep]
    obtain ⟨read, -, hread⟩ := definitions_lines hlines hfit.front hbreak
    refine ⟨read, ?_⟩
    rw [List.append_assoc, List.singleton_append, hread, skipSeparators_cons hsep,
      skipSeparators_eq_self htail]

/-- A pattern with the same parameter twice, at the start of a line, is found by the reader. -/
theorem endsIn_repeated {tokens : List Token} {place : Nat} (hclosed : Closed tokens)
    (hfit : Fit limit tokens) (h : RepeatsParameter tokens place)
    (hoffence : FirstOffence IsListing tokens place) :
    EndsIn "E105" (Program.ofTokens limit tokens) := by
  obtain @⟨front, back, name, opening, left, closing, right, hfront, hname, hopening, hleft,
    hclosing, hright, hsame⟩ := h
  have hviable : Viable IsListing front := by
    refine hoffence.viable.of_isPrefix ?_
    rw [List.take_length_add_append]
    exact List.prefix_append _ _
  obtain ⟨more, block, hlines⟩ := viable_lines hviable hclosed.kind_ne_eof
  obtain ⟨first, -, hfirst, -⟩ := hlines.split_lineStart hfront
  have htail : startsWith [.separator] (name :: opening :: left :: closing :: right :: back) =
      false := startsWith_cons.mpr (by simp [hname])
  obtain ⟨read, hread⟩ := definitions_lineStart hfirst hfront hfit.front htail
  rw [definitions_of_repeated hname hopening hleft hclosing hright hsame] at hread
  refine ⟨⟨.duplicateParameter right.lexeme, right.span, none⟩, ?_, rfl⟩
  unfold Program.ofTokens
  rw [hread]
  rfl

/-- E105 stands for nothing else. -/
theorem Stops.repeats {failure : Failure} (h : Stops failure front (right :: back))
    (hshort : ¬ Overlong right) {mistake : Fault} (hfailure : failure = .fault mistake)
    (hcode : mistake.cause.code = "E105") :
    ∃ before name opening left closing, front = before ++ [name, opening, left, closing] ∧
      name.kind = .identifier ∧ opening.kind = .quote ∧ left.kind = .identifier ∧
      closing.kind = .quote ∧ right.kind = .identifier ∧ right.lexeme = left.lexeme := by
  cases h with
  | refused expected =>
      obtain ⟨other, hother, -, hcodes, -⟩ := refuse_eq_fault expected right back
      cases hother.symm.trans hfailure
      simp [hcode] at hcodes
  | literal hkind hliteral =>
      obtain ⟨other, hother, -, hrange⟩ :=
        (literal_eq_error hliteral).resolve_left fun hlong => hshort ⟨hkind, hlong.2⟩
      cases hother.symm.trans hfailure
      simp [hcode] at hrange
  | repeated hname hopening hleft hclosing hright hsame before =>
      exact ⟨before, _, _, _, _, rfl, hname, hopening, hleft, hclosing, hright, hsame⟩

end Repeated

/-- **Reading definitions is exact.**  On every readable list, whatever limit of more than
`safeNesting` is set to the nesting: a block of definitions is read, spans apart, if and only if the
list spells it; a list that spells none is refused for a mistake with one of the codes E101 to E105;
and it is E105 if and only if the first token with which the list is no beginning of a block is the
second parameter of an infix pattern, and the same as the first. -/
theorem program_exact (limit : Nat) (hlimit : safeNesting < limit) (tokens : List Token)
    (h : Readable tokens) :
    (∀ block, (∃ program, Program.ofTokens limit tokens = .ok program ∧
      program.definitions.map Definition.erase = block.map Definition.erase) ↔
      Listing tokens block) ∧
    ((¬ ∃ block, Listing tokens block) → ∃ mistake,
      Program.ofTokens limit tokens = .error (.fault mistake) ∧
        mistake.cause.code ∈ ["E101", "E102", "E103", "E104", "E105"]) ∧
    (EndsIn "E105" (Program.ofTokens limit tokens) ↔
      ∃ place, RepeatsParameter tokens place ∧ FirstOffence IsListing tokens place) := by
  have hfit : Fit limit tokens := h.fit hlimit
  refine ⟨fun block => ⟨?_, ofTokens_of_listing hfit⟩, fun hnone => ?_, ?_, ?_⟩
  · rintro ⟨program, hprogram, hsame⟩
    exact (listing_of_ofTokens h.closed hprogram).of_erase hsame.symm
  · cases hread : Program.ofTokens limit tokens with
    | ok program => exact absurd ⟨_, listing_of_ofTokens h.closed hread⟩ hnone
    | error failure =>
        obtain ⟨front, token, back, rfl, hstops, -⟩ :=
          recognises_blocks.exists_offence h.closed h.legible hfit hread
        obtain ⟨mistake, rfl, -, hcode, -⟩ := hstops.eq_fault (hfit.short token (by simp))
        exact ⟨mistake, rfl, hcode⟩
  · rintro ⟨mistake, hfail, hcode⟩
    obtain ⟨front, right, back, rfl, hstops, hoffence⟩ :=
      recognises_blocks.exists_offence h.closed h.legible hfit hfail
    obtain ⟨before, name, opening, left, closing, rfl, hname, hopening, hleft, hclosing, hright,
      hsame⟩ := hstops.repeats (hfit.short right (by simp)) rfl hcode
    obtain ⟨hviable, -⟩ := firstOffence_append.mp hoffence
    have hstart : LineStart before :=
      lineStart_of_pattern (viable_lines hviable h.closed.kind_ne_eof) hname hopening hleft hclosing
    refine ⟨_, ?_, hoffence⟩
    rw [List.append_assoc, List.length_append]
    exact .infixed hstart hname hopening hleft hclosing hright hsame
  · rintro ⟨place, hrepeats, hoffence⟩
    exact endsIn_repeated h.closed hfit hrepeats hoffence

/-- The tokens of `f "x" x => 1`. -/
def repeatedX : List Token :=
  [placed .identifier "f", placed .quote "\"", placed .identifier "x", placed .quote "\"",
    placed .identifier "x", placed .arrow "=>", placed .number "1", placed .eof ""]

/-- A pattern with the parameter `x` on both sides is refused at the second one. -/
theorem program_exact_repeatedX :
    Readable repeatedX ∧ EndsIn "E105" (Program.ofTokens nestingLimit repeatedX) ∧
    (∃ place, RepeatsParameter repeatedX place ∧ FirstOffence IsListing repeatedX place) ∧
    ∀ block, ¬ Listing repeatedX block := by
  have hreadable : Readable repeatedX := by decide +kernel
  have hends : EndsIn "E105" (Program.ofTokens nestingLimit repeatedX) := by decide +kernel
  obtain ⟨hexact, -, hrepeats⟩ := program_exact nestingLimit (by decide) repeatedX hreadable
  refine ⟨hreadable, hends, hrepeats.mp hends, fun block hblock => ?_⟩
  obtain ⟨program, hprogram, -⟩ := (hexact block).mpr hblock
  rw [hprogram] at hends
  exact not_endsIn_ok hends

end Grammar

end DiceLang
