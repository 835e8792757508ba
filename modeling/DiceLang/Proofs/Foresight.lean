import DiceLang.Proofs.Tree.Exact

/-!
# Readers that look one token ahead

A reader of this language decides by the token at the front of the list.  So when it fails, it has
taken nothing that could not have led to success, and what it fails at is the very next token.

To say so of every reader at once, only what is left of a list is looked at: a `Pass` goes over the
front of a list, and `pass` makes a reader into one.  Passes are put together from a choice by the
next token, from loops and from one pass after another.

`Foresees` is what they have in common.  A pass that succeeds has gone over a member of a language.
One that fails stops at a token (`Stops`), and what it has gone over until then is the beginning of a
member.  Either way the tokens behind the next one have nothing to do with it (`Steady`).
-/

namespace DiceLang

namespace Grammar

/-- Goes over the front of a list and says what is left, or why it cannot. -/
abbrev Pass : Type := List Token → Except Failure (List Token)

/-- What a reader leaves, whatever it makes of the tokens that it takes. -/
def pass {α : Type} (reader : Reader α) : Pass := fun tokens => (reader tokens).map Reading.rest

namespace Pass

/-- Goes over a token of one of some kinds and on from there, or else another way. -/
def choice (kinds : List Kind) (next : Token → Pass) (otherwise : Pass) : Pass
  | [] => otherwise []
  | first :: rest => if first.kind ∈ kinds then next first rest else otherwise (first :: rest)

/-- Goes over a token that must be there, and on from there. -/
def token (kind : Kind) (expected : Expectation) (next : Token → Pass) : Pass :=
  choice [kind] next fun tokens => .error (refuse expected tokens)

/-- Goes over a numeral that a literal may have. -/
def numeral : Pass :=
  token .number .number fun number rest => (literal number).map fun _ => rest

/-- Goes one way if the next token is of one of some kinds, and another way if it is not. -/
def peek (kinds : List Kind) (one other : Pass) : Pass :=
  choice kinds (fun first rest => one (first :: rest)) other

/-- One pass after another. -/
def andThen (f g : Pass) : Pass := fun tokens => f tokens >>= g

/-- Goes over operands, each behind a token of one of some kinds, as long as there are any. -/
def many {α : Type} (kinds : List Kind) (operand : Reader α) : Pass
  | [] => .ok []
  | first :: rest =>
    if first.kind ∈ kinds then
      match operand rest with
      | .error failure => .error failure
      | .ok reading => many kinds operand reading.rest
    else .ok (first :: rest)
termination_by tokens => tokens.length
decreasing_by
  have := reading.shorter
  simp only [List.length_cons]
  omega

/-- A loop over operands is a choice whether to go over one more. -/
theorem many_eq_choice {α : Type} (kinds : List Kind) (operand : Reader α) (tokens : List Token) :
    many kinds operand tokens =
      choice kinds (fun _ => (pass operand).andThen (many kinds operand)) .ok tokens := by
  cases tokens with
  | nil => rw [many, choice]
  | cons first rest =>
      rw [many, choice]
      unfold andThen pass
      cases operand rest <;> rfl

variable {kinds : List Kind} {next : Token → Pass} {otherwise : Pass} {tokens : List Token}

theorem choice_of_mem {first : Token} {rest : List Token} (h : first.kind ∈ kinds) :
    choice kinds next otherwise (first :: rest) = next first rest := if_pos h

/-- The other way is taken where no token of the kinds comes first. -/
theorem choice_of_startsWith (h : startsWith kinds tokens = false) :
    choice kinds next otherwise tokens = otherwise tokens := by
  cases tokens with
  | nil => rfl
  | cons first rest => exact if_neg (startsWith_cons.mp h)

end Pass

/-- A failure is due to the token at which a list is left, behind the tokens of `front`. -/
inductive Stops : Failure → (front rest : List Token) → Prop
  /-- The token is not what is expected. -/
  | refused (expected : Expectation) (front rest : List Token) :
      Stops (refuse expected rest) front rest
  /-- The token is a numeral that no literal may have. -/
  | literal {token : Token} {failure : Failure} (hkind : token.kind = .number)
      (hliteral : literal token = .error failure) (front rest : List Token) :
      Stops failure front (token :: rest)
  /-- The token is the second parameter of an infix pattern, and the same as the first. -/
  | repeated {name opening left closing right : Token} (hname : name.kind = .identifier)
      (hopening : opening.kind = .quote) (hleft : left.kind = .identifier)
      (hclosing : closing.kind = .quote) (hright : right.kind = .identifier)
      (hsame : right.lexeme = left.lexeme) (front rest : List Token) :
      Stops (.ofCause (.duplicateParameter right.lexeme) right.span)
        (front ++ [name, opening, left, closing]) (right :: rest)

/-- A pass that stops at a token stops there too if more has been gone over before. -/
theorem Stops.behind {failure : Failure} {front rest : List Token} (h : Stops failure front rest)
    (taken : List Token) : Stops failure (taken ++ front) rest := by
  cases h with
  | refused expected => exact .refused expected _ rest
  | literal hkind hliteral => exact .literal hkind hliteral _ _
  | repeated hname hopening hleft hclosing hright hsame front rest =>
      rw [← List.append_assoc]
      exact .repeated hname hopening hleft hclosing hright hsame _ rest

/-- What is refused depends on the next token only. -/
theorem refuse_congr (expected : Expectation) {tokens others : List Token}
    (h : others.head? = tokens.head?) : refuse expected others = refuse expected tokens := by
  cases tokens with
  | nil => rw [List.head?_eq_none_iff.mp h]
  | cons token tokens =>
      obtain ⟨rest, rfl⟩ := List.head?_eq_some_iff.mp h
      rfl

/-- Which kind comes first depends on the first token only. -/
theorem startsWith_congr (kinds : List Kind) {tokens others : List Token}
    (h : others.head? = tokens.head?) : startsWith kinds others = startsWith kinds tokens := by
  cases tokens with
  | nil => rw [List.head?_eq_none_iff.mp h]
  | cons token tokens =>
      obtain ⟨rest, rfl⟩ := List.head?_eq_some_iff.mp h
      rfl

/-- The next token is that of what stands first, if there is anything. -/
theorem head?_append_congr (front : List Token) {rest other : List Token}
    (h : other.head? = rest.head?) : (front ++ other).head? = (front ++ rest).head? := by
  rw [List.head?_append, List.head?_append, h]

/-- Parentheses are nested too deeply to be followed. -/
def TooDeep (failure : Failure) : Prop := ∃ span, failure = .ofCause .nesting span

/-- Behind `front`, all lists with the same next token as `rest` have the same outcome. -/
def Steady {α : Type} (f : List Token → Except Failure α) (front rest : List Token)
    (outcome : List Token → Except Failure α) : Prop :=
  ∀ other : List Token, other.head? = rest.head? → f (front ++ other) = outcome other

/-- What a pass does with a list, when some tokens have been passed before: it goes over a member of
a language, or it stops where it has gone over the beginning of a member. -/
structure Foresees (passed : List Token) (L : List Token → Prop) (f : Pass)
    (tokens : List Token) : Prop where
  reads : ∀ {rest : List Token}, f tokens = .ok rest →
    ∃ taken, tokens = taken ++ rest ∧ L taken ∧ Steady f taken rest .ok
  halts : ∀ {failure : Failure}, f tokens = .error failure →
    TooDeep failure ∨ ∃ front rest, tokens = front ++ rest ∧
      Stops failure (passed ++ front) rest ∧ (∃ more, L (front ++ more)) ∧
      Steady f front rest fun _ => .error failure

section Foresees

variable {passed tokens : List Token} {L M N : List Token → Prop} {f g : Pass}

/-- What foresees a language foresees any larger one. -/
theorem Foresees.mono (h : Foresees passed L f tokens) (himp : ∀ taken, L taken → M taken) :
    Foresees passed M f tokens where
  reads := by
    intro rest hread
    obtain ⟨taken, htokens, htaken, hsteady⟩ := h.reads hread
    exact ⟨taken, htokens, himp taken htaken, hsteady⟩
  halts := by
    intro failure hfail
    rcases h.halts hfail with hdeep | ⟨front, rest, htokens, hstops, ⟨more, hmore⟩, hsteady⟩
    · exact .inl hdeep
    · exact .inr ⟨front, rest, htokens, hstops, ⟨more, himp _ hmore⟩, hsteady⟩

/-- More may have been gone over before, since it has nothing to do with the outcome. -/
theorem Foresees.behind (h : Foresees [] L f tokens) (passed : List Token) :
    Foresees passed L f tokens where
  reads := h.reads
  halts := by
    intro failure hfail
    rcases h.halts hfail with hdeep | ⟨front, rest, htokens, hstops, hmore, hsteady⟩
    · exact .inl hdeep
    · exact .inr ⟨front, rest, htokens, hstops.behind passed, hmore, hsteady⟩

/-- A pass does with a list what another one does, if both go the same way before its next
token. -/
theorem Foresees.congr (h : Foresees passed L g tokens)
    (hsame : ∀ other : List Token, other.head? = tokens.head? → f other = g other) :
    Foresees passed L f tokens where
  reads := by
    intro rest hread
    rw [hsame tokens rfl] at hread
    obtain ⟨taken, rfl, htaken, hsteady⟩ := h.reads hread
    refine ⟨taken, rfl, htaken, fun other hother => ?_⟩
    rw [hsame _ (head?_append_congr taken hother)]
    exact hsteady other hother
  halts := by
    intro failure hfail
    rw [hsame tokens rfl] at hfail
    rcases h.halts hfail with hdeep | ⟨front, rest, rfl, hstops, hmore, hsteady⟩
    · exact .inl hdeep
    · refine .inr ⟨front, rest, rfl, hstops, hmore, fun other hother => ?_⟩
      rw [hsame _ (head?_append_congr front hother)]
      exact hsteady other hother

/-- Staying where it is a pass goes over nothing. -/
theorem foresees_stay (hnil : L []) : Foresees passed L .ok tokens where
  reads := by
    intro rest hread
    cases hread
    exact ⟨[], rfl, hnil, fun _ _ => rfl⟩
  halts := nofun

/-- Refusing the next token is to stop there, if the language has any member to begin with. -/
theorem foresees_refuse (expected : Expectation) (hsome : ∃ taken, L taken) :
    Foresees passed L (fun tokens => .error (refuse expected tokens)) tokens where
  reads := nofun
  halts := by
    intro failure hfail
    cases hfail
    exact .inr ⟨[], tokens, rfl, .refused expected _ tokens, hsome,
      fun other hother => congrArg Except.error (refuse_congr expected hother)⟩

/-- A token that is gone over in any case. -/
theorem Foresees.cons {first : Token}
    (h : Foresees (passed ++ [first]) (fun taken => L (first :: taken)) f tokens) :
    Foresees passed L (fun tokens => f tokens.tail) (first :: tokens) where
  reads := by
    intro rest hread
    obtain ⟨taken, htokens, htaken, hsteady⟩ := h.reads hread
    exact ⟨first :: taken, congrArg (first :: ·) htokens, htaken, hsteady⟩
  halts := by
    intro failure hfail
    rcases h.halts hfail with hdeep | ⟨front, rest, htokens, hstops, hmore, hsteady⟩
    · exact .inl hdeep
    · rw [List.append_assoc] at hstops
      exact .inr ⟨first :: front, rest, congrArg (first :: ·) htokens, hstops, hmore, hsteady⟩

/-- **A choice by the next token.** -/
theorem foresees_choice {kinds : List Kind} {next : Token → Pass} {otherwise : Pass}
    (hnext : ∀ first rest, tokens = first :: rest → first.kind ∈ kinds →
      Foresees passed L (fun tokens => next first tokens.tail) tokens)
    (hotherwise : startsWith kinds tokens = false → Foresees passed L otherwise tokens) :
    Foresees passed L (Pass.choice kinds next otherwise) tokens := by
  cases hstart : startsWith kinds tokens with
  | false =>
      refine (hotherwise hstart).congr fun other hother => ?_
      exact Pass.choice_of_startsWith ((startsWith_congr kinds hother).trans hstart)
  | true =>
      cases tokens with
      | nil => cases hstart
      | cons first rest =>
          have hmem : first.kind ∈ kinds := by simpa [startsWith] using hstart
          refine (hnext first rest rfl hmem).congr fun other hother => ?_
          obtain ⟨others, rfl⟩ := List.head?_eq_some_iff.mp hother
          exact Pass.choice_of_mem hmem

/-- Passes that do not depend on what comes later do not in a row either. -/
theorem Steady.andThen {front back rest : List Token}
    {outcome : List Token → Except Failure (List Token)} (hf : Steady f front (back ++ rest) .ok)
    (hg : Steady g back rest outcome) : Steady (f.andThen g) (front ++ back) rest outcome := by
  intro other hother
  show f (front ++ back ++ other) >>= g = outcome other
  rw [List.append_assoc, hf _ (head?_append_congr back hother)]
  exact hg other hother

/-- **One pass after another.**  There must be a way to go on behind the first. -/
theorem Foresees.andThen (hf : Foresees passed L f tokens)
    (hg : ∀ rest, f tokens = .ok rest → Foresees [] M g rest) (hsome : ∃ taken, M taken)
    (happend : ∀ front back, L front → M back → N (front ++ back)) :
    Foresees passed N (f.andThen g) tokens where
  reads := by
    intro rest hread
    obtain ⟨middle, hfirst, hsecond⟩ := bind_eq_ok hread
    obtain ⟨back, rfl, hback, hsteady'⟩ := (hg middle hfirst).reads hsecond
    obtain ⟨front, rfl, hfront, hsteady⟩ := hf.reads hfirst
    exact ⟨front ++ back, (List.append_assoc ..).symm, happend front back hfront hback,
      hsteady.andThen hsteady'⟩
  halts := by
    intro failure hfail
    rcases bind_eq_error hfail with hfirst | ⟨middle, hfirst, hsecond⟩
    · rcases hf.halts hfirst with hdeep | ⟨front, rest, rfl, hstops, ⟨more, hmore⟩, hsteady⟩
      · exact .inl hdeep
      · obtain ⟨back, hback⟩ := hsome
        refine .inr ⟨front, rest, rfl, hstops, ⟨more ++ back, ?_⟩, fun other hother => ?_⟩
        · rw [← List.append_assoc]
          exact happend _ _ hmore hback
        · exact congrArg (· >>= g) (hsteady other hother)
    · rcases (hg middle hfirst).halts hsecond with
        hdeep | ⟨front, rest, rfl, hstops, ⟨more, hmore⟩, hsteady'⟩
      · exact .inl hdeep
      · obtain ⟨taken, rfl, htaken, hsteady⟩ := hf.reads hfirst
        refine .inr ⟨taken ++ front, rest, (List.append_assoc ..).symm, ?_, ⟨more, ?_⟩,
          hsteady.andThen hsteady'⟩
        · rw [← List.append_assoc]
          exact hstops.behind (passed ++ taken)
        · rw [List.append_assoc]
          exact happend _ _ htaken hmore

/-- A token that must be there, of which there is one of every kind. -/
theorem foresees_token {kind : Kind} {expected : Expectation} {next : Token → Pass}
    (hnext : ∀ first rest, tokens = first :: rest → first.kind = kind →
      Foresees (passed ++ [first]) (fun taken => L (first :: taken)) (next first) rest)
    (hsome : ∃ taken, L taken) : Foresees passed L (Pass.token kind expected next) tokens := by
  refine foresees_choice ?_ fun _ => foresees_refuse expected hsome
  rintro first rest rfl hmem
  exact (hnext first rest rfl (List.mem_singleton.mp hmem)).cons

/-- Going over one token foresees the language of that token. -/
theorem foresees_single {kind : Kind} {expected : Expectation}
    (h : ∀ token : Token, token.kind = kind → L [token]) :
    Foresees passed L (Pass.token kind expected fun _ => .ok) tokens :=
  foresees_token (fun first _ _ hkind => foresees_stay (h first hkind)) ⟨[placed kind ""], h _ rfl⟩

/-- A numeral, which is itself to blame if no literal may have it. -/
theorem foresees_numeral
    (h : ∀ (token : Token) (value : Int), token.kind = .number → literal token = .ok value →
      L [token]) : Foresees passed L Pass.numeral tokens := by
  have hsome : ∃ taken, L taken := ⟨[placed .number "0"], h _ 0 rfl (by rfl)⟩
  refine foresees_choice ?_ fun _ => foresees_refuse _ hsome
  rintro first rest rfl hmem
  have hkind : first.kind = .number := List.mem_singleton.mp hmem
  refine ⟨?_, ?_⟩
  · intro others hread
    obtain ⟨value, hvalue, rfl⟩ := map_eq_ok hread
    refine ⟨[first], rfl, h first value hkind hvalue, fun other _ => ?_⟩
    simp only [hvalue]
    rfl
  · intro failure hfail
    have hliteral := map_eq_error hfail
    refine .inr ⟨[], _, rfl, .literal hkind hliteral _ rest, hsome, fun other hother => ?_⟩
    obtain ⟨others, rfl⟩ := List.head?_eq_some_iff.mp hother
    simp only [hliteral]
    rfl

/-- A pass that looks ahead foresees a language if it does on either way. -/
theorem foresees_peek {kinds : List Kind} (hone : startsWith kinds tokens = true →
      Foresees passed L f tokens)
    (hother : startsWith kinds tokens = false → Foresees passed L g tokens) :
    Foresees passed L (Pass.peek kinds f g) tokens := by
  refine foresees_choice ?_ hother
  rintro first rest rfl hmem
  refine (hone (by simpa [startsWith] using hmem)).congr fun other hother => ?_
  obtain ⟨others, rfl⟩ := List.head?_eq_some_iff.mp hother
  rfl

/-- **Loops.**  What may follow a phrase is kept by one more sign with an operand. -/
theorem foresees_many {α : Type} {kinds : List Kind} {operand : Reader α}
    (hoperand : ∀ tokens, Foresees [] L (pass operand) tokens) (hnil : M [])
    (hmore : ∀ (sign : Token) (front back : List Token), sign.kind ∈ kinds → L front → M back →
      M (sign :: (front ++ back))) (tokens : List Token) :
    Foresees [] M (Pass.many kinds operand) tokens := by
  induction hlength : tokens.length using Nat.strong_induction_on generalizing tokens with
  | _ length ih =>
      subst hlength
      refine Foresees.congr ?_ fun other _ => Pass.many_eq_choice kinds operand other
      refine foresees_choice ?_ fun _ => foresees_stay hnil
      rintro sign rest rfl hsign
      refine Foresees.cons (f := (pass operand).andThen (Pass.many kinds operand)) ?_
      refine ((hoperand rest).behind [sign]).andThen (M := M) ?_ ⟨[], hnil⟩ fun front back =>
        hmore sign front back hsign
      intro others hread
      obtain ⟨reading, -, rfl⟩ := map_eq_ok hread
      refine ih _ ?_ reading.rest rfl
      exact Nat.lt_succ_of_lt reading.shorter

end Foresees

/-- Some tokens are the beginning of a list that is accepted. -/
def Viable (accepted : List Token → Prop) (front : List Token) : Prop :=
  ∃ more, accepted (front ++ more)

/-- The reading of a whole list fails at the token behind `front`. -/
structure Halts {α : Type} (accepted : List Token → Prop) (read : List Token → Except Failure α)
    (failure : Failure) (front rest : List Token) : Prop where
  stops : Stops failure front rest
  /-- The end of the list has not been passed. -/
  unended : ∀ token ∈ front, token.kind ≠ .eof
  viable : Viable accepted front
  steady : Steady read front rest fun _ => .error failure

/-- Whether a list is at its end depends on the first token only. -/
theorem atEnd_congr {tokens others : List Token} (h : others.head? = tokens.head?) :
    atEnd others = atEnd tokens := by
  cases tokens with
  | nil => rw [List.head?_eq_none_iff.mp h]
  | cons token tokens =>
      obtain ⟨rest, rfl⟩ := List.head?_eq_some_iff.mp h
      rfl

end Grammar

end DiceLang
