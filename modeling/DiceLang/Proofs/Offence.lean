import DiceLang.Proofs.Limits
import DiceLang.Proofs.Line
import DiceLang.Proofs.Program.Foresight

/-!
# First offences

The first offence of a list is the token with which it stops being the beginning of a list that is
accepted.  A reader that looks one token ahead finds mistakes there: what it has gone over is the
beginning of an accepted list, and with the token at which it stops no list is accepted.

The latter is not a matter of looking at tokens, for a list that goes on otherwise may be nested much
deeper and have much longer numerals than any that can be read.  But it is accepted with shorter
numerals as well, and read within a larger limit, which makes no difference to how reading ends.

`Recognises` says what this rests on, so that it is shown of expressions and of blocks of definitions
at once.
-/

namespace DiceLang

namespace Grammar

section Beginnings

variable {accepted : List Token → Prop} {tokens front : List Token} {place other : Nat}

/-- The beginning of what goes on to an accepted list does so itself. -/
theorem Viable.of_isPrefix (h : Viable accepted tokens) (hfront : front <+: tokens) :
    Viable accepted front := by
  obtain ⟨back, rfl⟩ := hfront
  obtain ⟨more, hmore⟩ := h
  exact ⟨back ++ more, by rwa [← List.append_assoc]⟩

/-- The token at a place is the first with which a list is no beginning of an accepted one. -/
structure FirstOffence (accepted : List Token → Prop) (tokens : List Token) (place : Nat) :
    Prop where
  viable : Viable accepted (tokens.take place)
  offends : ¬ Viable accepted (tokens.take (place + 1))

/-- No offence comes before the first one. -/
theorem FirstOffence.le (h : FirstOffence accepted tokens place)
    (hother : FirstOffence accepted tokens other) : place ≤ other := by
  by_contra hlt
  have hbefore : tokens.take (other + 1) <+: tokens.take place :=
    List.take_prefix_take_left (Nat.lt_of_not_le hlt)
  exact hother.offends (h.viable.of_isPrefix hbefore)

/-- There is one first offence at most. -/
theorem FirstOffence.eq (h : FirstOffence accepted tokens place)
    (hother : FirstOffence accepted tokens other) : place = other :=
  Nat.le_antisymm (h.le hother) (hother.le h)

/-- A token is the first offence if what stands before it can go on, but not with that token. -/
theorem firstOffence_append {token : Token} {back : List Token} :
    FirstOffence accepted (front ++ token :: back) front.length ↔
      Viable accepted front ∧ ¬ Viable accepted (front ++ [token]) := by
  have hfront : (front ++ token :: back).take front.length = front := List.take_left
  have hnext : (front ++ token :: back).take (front.length + 1) = front ++ [token] :=
    List.take_length_add_append 1
  constructor
  · rintro ⟨hviable, hoffends⟩
    exact ⟨hfront ▸ hviable, hnext ▸ hoffends⟩
  · rintro ⟨hviable, hoffends⟩
    exact ⟨hfront.symm ▸ hviable, hnext.symm ▸ hoffends⟩

end Beginnings

section Mistakes

variable {limit : Nat} {failure : Failure} {front back tokens : List Token} {token : Token}

/-- What is said about a token that is refused. -/
theorem refuse_eq_fault (expected : Expectation) (token : Token) (back : List Token) :
    ∃ mistake, refuse expected (token :: back) = .fault mistake ∧
      mistake.span = some token.span ∧
      mistake.cause.code ∈ ["E101", "E102", "E103"] ∧
      (mistake.cause.code = "E102" ↔ token.kind = .eof) ∧
      (mistake.cause.code = "E103" ↔ token.kind = .illegal) := by
  simp only [refuse]
  split
  · next hkind => exact ⟨_, rfl, rfl, by simp [Cause.code], by simp [Cause.code, hkind]⟩
  · next hkind => exact ⟨_, rfl, rfl, by simp [Cause.code], by simp [Cause.code, hkind]⟩
  · next heof hillegal =>
      refine ⟨_, rfl, rfl, by simp [Cause.code], ?_, ?_⟩
      · simpa [Cause.code] using heof
      · simpa [Cause.code] using hillegal

/-- **Where reading stops a mistake is found**, which is at that token and tells of its kind.  No
mistake is found only if the token is a numeral that is too long. -/
theorem Stops.overlong_or_eq_fault (h : Stops failure front (token :: back)) :
    failure = .digitLimit ∧ Overlong token ∨
    ∃ mistake, failure = .fault mistake ∧ mistake.span = some token.span ∧
      mistake.cause.code ∈ ["E101", "E102", "E103", "E104", "E105"] ∧
      (mistake.cause.code = "E102" ↔ token.kind = .eof) ∧
      (mistake.cause.code = "E103" ↔ token.kind = .illegal) := by
  cases h with
  | refused expected =>
      obtain ⟨mistake, hfailure, hspan, hcode, hkinds⟩ := refuse_eq_fault expected token back
      refine .inr ⟨mistake, hfailure, hspan, ?_, hkinds⟩
      exact List.mem_append_left ["E104", "E105"] hcode
  | literal hkind hliteral =>
      rcases literal_eq_error hliteral with ⟨hlimit, hlong⟩ | ⟨mistake, hfailure, hspan, hcode⟩
      · exact .inl ⟨hlimit, hkind, hlong⟩
      · exact .inr ⟨mistake, hfailure, hspan, by simp [hcode], by simp [hcode, hkind]⟩
  | repeated _ _ _ _ hright =>
      exact .inr ⟨_, rfl, rfl, by simp [Cause.code], by simp [Cause.code, hright]⟩

/-- Where reading stops at a token that is not too long, a mistake is found at it. -/
theorem Stops.eq_fault (h : Stops failure front (token :: back)) (hshort : ¬ Overlong token) :
    ∃ mistake, failure = .fault mistake ∧ mistake.span = some token.span ∧
      mistake.cause.code ∈ ["E101", "E102", "E103", "E104", "E105"] ∧
      (mistake.cause.code = "E102" ↔ token.kind = .eof) ∧
      (mistake.cause.code = "E103" ↔ token.kind = .illegal) :=
  h.overlong_or_eq_fault.resolve_left fun hlong => hshort hlong.2

/-- Only a list that is nested too deeply is said to be. -/
def Justified (limit : Nat) (tokens : List Token) (failure : Failure) : Prop :=
  TooDeep failure → ¬ Nested limit tokens

/-- A mistake that is not one of nesting does not say that there is any. -/
theorem Mistaken.justified (h : Mistaken failure) : Justified limit tokens failure := by
  rintro ⟨span, rfl⟩
  obtain ⟨mistake, hmistake, hcode⟩ := h
  cases hmistake
  simp [Cause.code, mistakeCodes] at hcode

/-- The readers of expressions complain of nesting only where it is too deep. -/
theorem Refusal.justified (h : Refusal limit tokens failure) : Justified limit tokens failure := by
  rintro ⟨span, rfl⟩
  cases h with
  | mistake hcode => simp [Cause.code, mistakeCodes] at hcode
  | nesting hdeep => exact hdeep

end Mistakes

/-- What is known of a reader of whole lists, within any limit, and of the lists that it accepts. -/
structure Recognises {α : Type} (accepted : List Token → Prop)
    (read : Nat → List Token → Except Failure α) : Prop where
  sound : ∀ {limit : Nat} {tokens : List Token} {value : α}, Closed tokens →
    read limit tokens = .ok value → accepted tokens
  complete : ∀ {limit : Nat} {tokens : List Token}, Fit limit tokens → accepted tokens →
    ∃ value, read limit tokens = .ok value
  closed : ∀ {tokens : List Token}, accepted tokens → Closed tokens
  /-- Numerals may be written otherwise. -/
  alike : ∀ {tokens others : List Token}, Alike tokens others → accepted tokens → accepted others
  larger : ∀ {limit larger : Nat} {tokens : List Token}, Closed tokens → Legible tokens →
    0 < limit → limit ≤ larger → ¬ EndsIn "E106" (read limit tokens) →
    read larger tokens = read limit tokens
  justified : ∀ {limit : Nat} {tokens : List Token} {failure : Failure},
    read limit tokens = .error failure → Justified limit tokens failure
  halts : ∀ {limit : Nat} {tokens : List Token} {failure : Failure},
    read limit tokens = .error failure → TooDeep failure ∨ ∃ front rest,
      tokens = front ++ rest ∧ Halts accepted (read limit) failure front rest

/-- Sentences are recognised by reading an expression. -/
theorem recognises_expressions : Recognises IsSentence Tree.ofTokens where
  sound := fun hclosed hread => ⟨_, sentence_of_ofTokens hclosed hread⟩
  complete := by
    rintro limit tokens hfit ⟨tree, htree⟩
    obtain ⟨read, hread, -⟩ := ofTokens_of_sentence hfit htree
    exact ⟨read, hread⟩
  closed := fun ⟨_, htree⟩ => htree.closed
  alike := fun halike ⟨tree, htree⟩ => ⟨tree, htree.alike halike⟩
  larger := fun hclosed hlegible _ => Tree.ofTokens_larger hclosed hlegible
  justified := fun hread => (ofTokens_explains hread).justified
  halts := ofTokens_halts

/-- Listings are recognised by reading a block of definitions. -/
theorem recognises_blocks : Recognises IsListing Program.ofTokens where
  sound := fun hclosed hread => ⟨_, listing_of_ofTokens hclosed hread⟩
  complete := by
    rintro limit tokens hfit ⟨block, hblock⟩
    obtain ⟨program, hprogram, -⟩ := ofTokens_of_listing hfit hblock
    exact ⟨program, hprogram⟩
  closed := fun ⟨_, hblock⟩ => hblock.closed
  alike := fun halike ⟨block, hblock⟩ => ⟨block, hblock.alike halike⟩
  larger := fun hclosed hlegible => Program.ofTokens_larger hclosed hlegible
  justified := fun hread => (program_explains hread).elim Mistaken.justified Refusal.justified
  halts := program_halts

/-- There are no more parentheses open in a list than it has tokens. -/
theorem fit_of_short {tokens : List Token} (h : ∀ token ∈ tokens, ¬ Overlong token) :
    Fit (tokens.length + 1) tokens where
  nested := by
    intro front hfront
    have hcount : front.countP (isKind .lparen) ≤ front.length := List.countP_le_length
    have hlength := hfront.length_le
    unfold unclosed
    omega
  short := h

namespace Recognises

variable {α : Type} {accepted : List Token → Prop} {read : Nat → List Token → Except Failure α}
  {limit : Nat} {tokens : List Token} {failure : Failure}

/-- **No accepted list goes on with the token at which reading stops.** -/
theorem not_viable (h : Recognises accepted read) (hpos : 0 < limit) {front rest : List Token}
    {token : Token} (hhalts : Halts accepted (read limit) failure front (token :: rest))
    (hlegible : Legible (front ++ [token])) (hshort : ∀ other ∈ front ++ [token], ¬ Overlong other) :
    ¬ Viable accepted (front ++ [token]) := by
  rintro ⟨more, hmore⟩
  let others := front ++ [token] ++ more.map Token.shortened
  have haccepted : accepted others := h.alike (alike_append_shortened _ more) hmore
  have hothers : ∀ other ∈ others, ¬ Overlong other := by
    refine List.forall_mem_append.mpr ⟨hshort, List.forall_mem_map.mpr fun written _ => ?_⟩
    exact Token.not_overlong_shortened written
  have hfit : Fit (max limit (others.length + 1)) others :=
    (fit_of_short hothers).mono (Nat.le_max_right _ _)
  have hsplit : others = front ++ token :: more.map Token.shortened := by simp [others]
  have hfail : read limit others = .error failure := hsplit ▸ hhalts.steady _ rfl
  have hends : ¬ EndsIn "E106" (read limit others) := by
    obtain ⟨mistake, rfl, -, hcode, -⟩ := hhalts.stops.eq_fault (hshort token (by simp))
    rw [hfail, endsIn_fault]
    rintro hnesting
    simp [hnesting] at hcode
  obtain ⟨value, hvalue⟩ := h.complete hfit haccepted
  have hlarger := h.larger (h.closed haccepted) (hlegible.append_shortened more) hpos
    (Nat.le_max_left limit (others.length + 1)) hends
  cases hvalue.symm.trans (hlarger.trans hfail)

/-- Reading a closed list halts at one of its tokens, unless it is nested too deeply. -/
theorem exists_halt (h : Recognises accepted read) (hclosed : Closed tokens)
    (hfail : read limit tokens = .error failure) (hdeep : ¬ TooDeep failure) :
    ∃ front token back, tokens = front ++ token :: back ∧
      Halts accepted (read limit) failure front (token :: back) := by
  obtain ⟨front, rest, rfl, hhalts⟩ := (h.halts hfail).resolve_left hdeep
  cases rest with
  | nil => simpa [Closed] using hclosed.rest hhalts.unended
  | cons token back => exact ⟨front, token, back, rfl, hhalts⟩

/-- **A list that is not read has a first offence**, and reading stops there. -/
theorem exists_offence (h : Recognises accepted read) (hclosed : Closed tokens)
    (hlegible : Legible tokens) (hfit : Fit limit tokens) (hfail : read limit tokens = .error failure) :
    ∃ front token back, tokens = front ++ token :: back ∧ Stops failure front (token :: back) ∧
      FirstOffence accepted tokens front.length := by
  have hdeep : ¬ TooDeep failure := fun hdeep => h.justified hfail hdeep hfit.nested
  obtain ⟨front, token, back, rfl, hhalts⟩ := h.exists_halt hclosed hfail hdeep
  have hpos : 0 < limit := hfit.nested [] List.nil_prefix
  have hsubset : front ++ [token] ⊆ front ++ token :: back := by simp
  refine ⟨front, token, back, rfl, hhalts.stops, firstOffence_append.mpr ⟨hhalts.viable, ?_⟩⟩
  exact h.not_viable hpos hhalts (fun other hother => hlegible other (hsubset hother))
    fun other hother => hfit.short other (hsubset hother)

end Recognises

/-- A list with an offence in it is not accepted. -/
theorem FirstOffence.not_accepted {accepted : List Token → Prop} {tokens : List Token} {place : Nat}
    (h : FirstOffence accepted tokens place) : ¬ accepted tokens := by
  intro haccepted
  have hwhole : Viable accepted tokens := ⟨[], by rwa [List.append_nil]⟩
  exact h.offends (hwhole.of_isPrefix (List.take_prefix _ _))

/-- The first offence is the end token if all that stands before it is the beginning of an accepted
list. -/
theorem FirstOffence.viable_dropLast_iff {accepted : List Token → Prop} {front back : List Token}
    {token : Token} (h : FirstOffence accepted (front ++ token :: back) front.length)
    (hclosed : Closed (front ++ token :: back)) :
    Viable accepted (front ++ token :: back).dropLast ↔ token.kind = .eof := by
  obtain ⟨hviable, hoffends⟩ := firstOffence_append.mp h
  have hrest : Closed (token :: back) := hclosed.rest hclosed.kind_ne_eof
  rw [List.dropLast_append_of_ne_nil (List.cons_ne_nil _ _)]
  cases back with
  | nil =>
      have hkind : token.kind = .eof := by simpa [Closed] using hrest
      simp [hkind, hviable]
  | cons next back =>
      have hkind : token.kind ≠ .eof := hrest.2 token (by simp)
      refine iff_of_false (fun hmore => hoffends (hmore.of_isPrefix ?_)) hkind
      rw [List.dropLast_cons_of_ne_nil (List.cons_ne_nil _ _),
        List.prefix_append_right_inj, List.cons_prefix_cons]
      exact ⟨rfl, List.nil_prefix⟩

/-- What the mistakes in a list, as an outcome reports them, have to do with its first offence. -/
structure ReportsFirstOffence {α : Type} (accepted : List Token → Prop) (tokens : List Token)
    (outcome : Except Failure α) : Prop where
  /-- A mistake is reported at the first offence. -/
  located : ∀ mistake, outcome = .error (.fault mistake) → ∃ place token,
    tokens[place]? = some token ∧ mistake.span = some token.span ∧
      FirstOffence accepted tokens place
  /-- E102 stands for a list that is not accepted, but is the beginning of an accepted one. -/
  unfinished : EndsIn "E102" outcome ↔ ¬ accepted tokens ∧ Viable accepted tokens.dropLast
  /-- E103 stands for a first offence that is an illegal character. -/
  illegal : EndsIn "E103" outcome ↔ ∃ place token,
    tokens[place]? = some token ∧ token.kind = .illegal ∧ FirstOffence accepted tokens place

namespace Recognises

variable {α : Type} {accepted : List Token → Prop} {read : Nat → List Token → Except Failure α}
  {limit : Nat} {tokens : List Token}

/-- **Mistakes are reported where they are.** -/
theorem reports (h : Recognises accepted read) (hclosed : Closed tokens) (hlegible : Legible tokens)
    (hfit : Fit limit tokens) :
    ReportsFirstOffence accepted tokens (read limit tokens) := by
  cases hread : read limit tokens with
  | ok value =>
      have haccepted : accepted tokens := h.sound hclosed hread
      refine ⟨?_, ?_, ?_⟩
      · intro mistake hmistake
        cases hmistake
      · exact iff_of_false not_endsIn_ok fun hnot => hnot.1 haccepted
      · exact iff_of_false not_endsIn_ok fun ⟨_, _, _, _, hfirst⟩ => hfirst.not_accepted haccepted
  | error failure =>
      obtain ⟨front, token, back, rfl, hstops, hfirst⟩ := h.exists_offence hclosed hlegible hfit hread
      have hplace : (front ++ token :: back)[front.length]? = some token := by simp
      have hshort : ¬ Overlong token := hfit.short token (by simp)
      obtain ⟨mistake, rfl, hspan, -, heof, hillegal⟩ := hstops.eq_fault hshort
      refine ⟨?_, ?_, ?_⟩
      · intro other hother
        cases hother
        exact ⟨front.length, token, hplace, hspan, hfirst⟩
      · rw [endsIn_fault, heof, hfirst.viable_dropLast_iff hclosed, iff_and_self]
        exact fun _ => hfirst.not_accepted
      · rw [endsIn_fault, hillegal]
        constructor
        · exact fun hkind => ⟨front.length, token, hplace, hkind, hfirst⟩
        · rintro ⟨place, other, hother, hkind, hoffence⟩
          rw [hoffence.eq hfirst, hplace] at hother
          cases hother
          exact hkind

end Recognises

/-- **Mistakes are found as early as possible.**  On every readable list, whatever limit of more than
`safeNesting` is set to the nesting, whether it is read as an expression or as a block of definitions:
a mistake is reported at a token up to which the list is the beginning of an accepted one, and with
which it is not.  It is E102 if and only if the list is not accepted but goes on to an accepted one
where it ends, and E103 if and only if that first token is an illegal character. -/
theorem reports_first_offence (limit : Nat) (hlimit : safeNesting < limit) (tokens : List Token)
    (h : Readable tokens) :
    ReportsFirstOffence IsSentence tokens (Tree.ofTokens limit tokens) ∧
    ReportsFirstOffence IsListing tokens (Program.ofTokens limit tokens) :=
  ⟨recognises_expressions.reports h.closed h.legible (h.fit hlimit),
    recognises_blocks.reports h.closed h.legible (h.fit hlimit)⟩

/-- The tokens of `1 + $`, of which the last is not part of the language. -/
def strayMark : List Token :=
  [placed .number "1", placed .plus "+", placed .illegal "$", placed .eof ""]

/-- The stray mark is found, and the rest of the line is no beginning of a block of definitions. -/
theorem reports_first_offence_strayMark :
    Readable strayMark ∧ EndsIn "E103" (Tree.ofTokens nestingLimit strayMark) ∧
    (∃ place token, strayMark[place]? = some token ∧ token.kind = .illegal ∧
      FirstOffence IsSentence strayMark place) ∧
    ¬ Viable IsListing strayMark.dropLast := by
  have hreadable : Readable strayMark := by decide +kernel
  have hlimit : safeNesting < nestingLimit := by decide
  have hillegal : EndsIn "E103" (Tree.ofTokens nestingLimit strayMark) := by decide +kernel
  have hfinished : ¬ EndsIn "E102" (Program.ofTokens nestingLimit strayMark) := by decide +kernel
  obtain ⟨hexpression, hblock⟩ := reports_first_offence nestingLimit hlimit strayMark hreadable
  refine ⟨hreadable, hillegal, hexpression.illegal.mp hillegal, fun hviable => ?_⟩
  have hnot : ¬ IsListing strayMark := by
    rintro ⟨block, hlisting⟩
    obtain ⟨program, hprogram, -⟩ := ofTokens_of_listing (hreadable.fit hlimit) hlisting
    have hfail : (Program.ofTokens nestingLimit strayMark).isOk = false := by decide +kernel
    rw [hprogram] at hfail
    cases hfail
  exact hfinished (hblock.unfinished.mpr ⟨hnot, hviable⟩)

end Grammar

end DiceLang
