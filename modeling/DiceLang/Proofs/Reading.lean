import DiceLang.Reading
import Mathlib.Data.List.TakeWhile

/-!
# What readers take and how they refuse

A reading takes the front of a list: `Reading.Takes` names the tokens it has taken.  Its span goes
from the first of them to the last, which is what `Reading.Occupies` adds.  The combinators of
readings put such fronts together.  For the readers of single tokens this file says what they take
when they succeed, when they succeed, and what their refusals are.

A computation of several steps is taken apart by `bind_eq_ok` and `bind_eq_error`, and a list at the
line breaks in front of it by `skipSeparators_eq`.
-/

namespace DiceLang

/-- After a success the next step is taken. -/
theorem ok_bind {ε α β : Type} (a : α) (f : α → Except ε β) : Except.ok a >>= f = f a := rfl

/-- A computation of two steps succeeds if both of them do. -/
theorem bind_eq_ok {ε α β : Type} {x : Except ε α} {f : α → Except ε β} {b : β}
    (h : x >>= f = .ok b) : ∃ a, x = .ok a ∧ f a = .ok b := by
  cases x with
  | error e => cases h
  | ok a => exact ⟨a, rfl, h⟩

/-- A computation of two steps fails if the first does, or the second after it. -/
theorem bind_eq_error {ε α β : Type} {x : Except ε α} {f : α → Except ε β} {e : ε}
    (h : x >>= f = .error e) : x = .error e ∨ ∃ a, x = .ok a ∧ f a = .error e := by
  cases x with
  | error e' => exact Or.inl (by cases h; rfl)
  | ok a => exact Or.inr ⟨a, rfl, h⟩

/-- Something is made of a value only if there was one. -/
theorem map_eq_ok {ε α β : Type} {x : Except ε α} {f : α → β} {b : β} (h : x.map f = .ok b) :
    ∃ a, x = .ok a ∧ f a = b := by
  cases x with
  | error e => cases h
  | ok a => exact ⟨a, rfl, Except.ok.inj h⟩

/-- Nothing is made of a failure. -/
theorem map_eq_error {ε α β : Type} {x : Except ε α} {f : α → β} {e : ε}
    (h : x.map f = .error e) : x = .error e := by
  cases x with
  | error e' => exact congrArg Except.error (Except.error.inj h)
  | ok a => cases h

/-- What succeeds with its failures rewritten succeeds as it is. -/
theorem mapError_eq_ok {ε ε' α : Type} {x : Except ε α} {g : ε → ε'} {a : α}
    (h : x.mapError g = .ok a) : x = .ok a := by
  cases x with
  | error e => cases h
  | ok a' => exact congrArg Except.ok (Except.ok.inj h)

/-- What fails with its failures rewritten fails as it is. -/
theorem mapError_eq_error {ε ε' α : Type} {x : Except ε α} {g : ε → ε'} {e : ε'}
    (h : x.mapError g = .error e) : ∃ e', x = .error e' ∧ g e' = e := by
  cases x with
  | error e' => exact ⟨e', rfl, Except.error.inj h⟩
  | ok a => cases h

/-- A span goes from the start of the first of some tokens to the end of the last. -/
def Over (tokens : List Token) (span : Span) : Prop :=
  (∃ first ∈ tokens.head?, first.span.start = span.start) ∧
    ∃ last ∈ tokens.getLast?, last.span.stop = span.stop

/-- One token has its own span. -/
theorem over_singleton (token : Token) : Over [token] token.span :=
  ⟨⟨token, rfl, rfl⟩, token, rfl, rfl⟩

/-- There is no span over no tokens. -/
theorem Over.ne_nil {tokens : List Token} {span : Span} (h : Over tokens span) : tokens ≠ [] := by
  rintro rfl
  obtain ⟨⟨first, hfirst, -⟩, -⟩ := h
  cases hfirst

/-- Two stretches are spanned from the first through the second, whatever stands between them. -/
theorem Over.through {front back : List Token} {first last : Span} (hfront : Over front first)
    (gap : List Token) (hback : Over back last) :
    Over (front ++ (gap ++ back)) (first.through last) := by
  obtain ⟨⟨start, hstart, hfirst⟩, -⟩ := hfront
  obtain ⟨-, stop, hstop, hlast⟩ := hback
  refine ⟨⟨start, ?_, hfirst⟩, stop, ?_, hlast⟩
  · rw [List.head?_append, Option.mem_def.mp hstart]
    rfl
  · rw [List.getLast?_append, List.getLast?_append, Option.mem_def.mp hstop]
    rfl

namespace Reading

variable {α β : Type} {tokens : List Token}

/-- The tokens that a reading has taken, as opposed to those it has left. -/
def Takes (reading : Reading α tokens) (taken : List Token) : Prop :=
  tokens = taken ++ reading.rest

/-- What a reading has taken was in the list. -/
theorem Takes.mem {reading : Reading α tokens} {taken : List Token} (h : reading.Takes taken)
    {token : Token} (htoken : token ∈ taken) : token ∈ tokens := by
  unfold Takes at h
  rw [h]
  exact List.mem_append_left _ htoken

/-- What a reading has left is the back of the list. -/
theorem Takes.suffix {reading : Reading α tokens} {taken : List Token} (h : reading.Takes taken) :
    reading.rest <:+ tokens := ⟨taken, h.symm⟩

/-- Two readings in a row take what each of them takes. -/
theorem Takes.andThen {first : Reading α tokens} {second : Reading β first.rest}
    {front back : List Token} (hfirst : first.Takes front) (hsecond : second.Takes back) :
    (first.andThen second).Takes (front ++ back) := by
  unfold Takes at *
  rw [List.append_assoc]
  exact hsecond ▸ hfirst

/-- The tokens that a reading has taken are those that its span goes over. -/
structure Occupies (reading : Reading α tokens) (taken : List Token) : Prop where
  takes : reading.Takes taken
  spans : Over taken reading.span

/-- Whatever is made of them, the tokens that a reading occupies are the same. -/
theorem Occupies.as {reading : Reading α tokens} {taken : List Token} (h : reading.Occupies taken)
    (value : β) : (reading.as value).Occupies taken := ⟨h.takes, h.spans⟩

/-- Two readings in a row occupy what each of them does. -/
theorem Occupies.andThen {first : Reading α tokens} {second : Reading β first.rest}
    {front back : List Token} (hfirst : first.Occupies front) (hsecond : second.Occupies back) :
    (first.andThen second).Occupies (front ++ back) :=
  ⟨hfirst.takes.andThen hsecond.takes, hfirst.spans.through [] hsecond.spans⟩

@[simp] theorem value_as (reading : Reading α tokens) (value : β) :
    (reading.as value).value = value := rfl

@[simp] theorem rest_as (reading : Reading α tokens) (value : β) :
    (reading.as value).rest = reading.rest := rfl

@[simp] theorem value_andThen (first : Reading α tokens) (second : Reading β first.rest) :
    (first.andThen second).value = second.value := rfl

@[simp] theorem rest_andThen (first : Reading α tokens) (second : Reading β first.rest) :
    (first.andThen second).rest = second.rest := rfl

end Reading

section Single

variable {α : Type} {tokens : List Token}

/-- A single token is taken if it is at the front and something can be made of it. -/
theorem take?_eq_some {pick : Token → Option α} {reading : Reading α tokens}
    (h : take? pick tokens = some reading) :
    ∃ token, pick token = some reading.value ∧ reading.Occupies [token] := by
  cases tokens with
  | nil => cases h
  | cons token rest =>
      simp only [take?] at h
      split at h
      · next value hvalue =>
          cases h
          exact ⟨token, hvalue, rfl, over_singleton token⟩
      · cases h

/-- What is picked by its kind is the token itself, and of that kind. -/
theorem ofKind_eq_some {kind : Kind} {token value : Token} (h : ofKind kind token = some value) :
    token = value ∧ value.kind = kind := by
  unfold ofKind at h
  split at h
  · next hkind =>
    cases h
    exact ⟨rfl, hkind⟩
  · cases h

/-- A token of one kind is taken if it is at the front. -/
theorem take?_ofKind_eq_some {kind : Kind} {reading : Reading Token tokens}
    (h : take? (ofKind kind) tokens = some reading) :
    reading.value.kind = kind ∧ reading.Occupies [reading.value] := by
  obtain ⟨token, hpick, hoccupies⟩ := take?_eq_some h
  obtain ⟨rfl, hkind⟩ := ofKind_eq_some hpick
  exact ⟨hkind, hoccupies⟩

/-- What is expected and found is of the right kind. -/
theorem expect_eq_ok {kind : Kind} {expected : Expectation} {reading : Reading Token tokens}
    (h : expect kind expected tokens = .ok reading) :
    reading.value.kind = kind ∧ reading.Occupies [reading.value] := by
  unfold expect at h
  split at h
  · next taken htaken =>
    cases h
    exact take?_ofKind_eq_some htaken
  · cases h

/-- What is expected and not found is refused. -/
theorem expect_eq_error {kind : Kind} {expected : Expectation} {failure : Failure}
    (h : expect kind expected tokens = .error failure) : failure = refuse expected tokens := by
  unfold expect at h
  split at h
  · cases h
  · cases h
    rfl

/-- A token that something can be made of is taken. -/
theorem take?_of_pick {pick : Token → Option α} {token : Token} {rest : List Token} {value : α}
    (htokens : tokens = token :: rest) (hpick : pick token = some value) :
    ∃ reading : Reading α tokens, take? pick tokens = some reading ∧
      reading.value = value ∧ reading.rest = rest := by
  subst htokens
  simp only [take?, hpick]
  exact ⟨_, rfl, rfl, rfl⟩

/-- Nothing is taken from a list that starts with none of the kinds that can be picked. -/
theorem take?_eq_none {pick : Token → Option α} {kinds : List Kind}
    (hpick : ∀ (token : Token) (value : α), pick token = some value → token.kind ∈ kinds)
    (hstart : startsWith kinds tokens = false) : take? pick tokens = none := by
  cases tokens with
  | nil => rfl
  | cons token rest =>
      have hkind : token.kind ∉ kinds := by simpa [startsWith] using hstart
      have hnone : pick token = none := by
        cases hvalue : pick token with
        | none => rfl
        | some value => exact absurd (hpick token value hvalue) hkind
      simp only [take?, hnone]

/-- No token of a kind is taken where none comes first. -/
theorem take?_ofKind_eq_none {kind : Kind} (hstart : startsWith [kind] tokens = false) :
    take? (ofKind kind) tokens = none := by
  have hpick : ∀ token value, ofKind kind token = some value → token.kind ∈ [kind] := by
    intro token value hvalue
    obtain ⟨rfl, hkind⟩ := ofKind_eq_some hvalue
    simp [hkind]
  exact take?_eq_none hpick hstart

/-- A list that starts with none of some kinds starts with none of fewer. -/
theorem startsWith_mono {kinds more : List Kind} (hsubset : kinds ⊆ more)
    (hstart : startsWith more tokens = false) : startsWith kinds tokens = false := by
  cases tokens with
  | nil => rfl
  | cons token rest =>
      have hkind : token.kind ∉ more := by simpa [startsWith] using hstart
      simpa [startsWith] using fun hmem => hkind (hsubset hmem)

/-- A list that starts with one of some kinds starts with none that is not among them. -/
theorem startsWith_of_disjoint {kinds others : List Kind} (hdisjoint : ∀ kind ∈ kinds, kind ∉ others)
    (hstart : startsWith kinds tokens = true) : startsWith others tokens = false := by
  cases tokens with
  | nil => rfl
  | cons token rest =>
      have hkind : token.kind ∈ kinds := by simpa [startsWith] using hstart
      simpa [startsWith] using hdisjoint token.kind hkind

/-- None of the kinds comes first if the first token is of another kind. -/
theorem startsWith_cons {kinds : List Kind} {token : Token} {rest : List Token} :
    startsWith kinds (token :: rest) = false ↔ token.kind ∉ kinds := by
  simp [startsWith]

/-- A token is picked by its own kind. -/
theorem ofKind_of_kind {kind : Kind} {token : Token} (h : token.kind = kind) :
    ofKind kind token = some token := if_pos h

/-- A token of the expected kind is found. -/
theorem expect_of_kind {kind : Kind} (expected : Expectation) {token : Token}
    {rest : List Token} (htokens : tokens = token :: rest) (hkind : token.kind = kind) :
    ∃ reading : Reading Token tokens, expect kind expected tokens = .ok reading ∧
      reading.value = token ∧ reading.rest = rest := by
  obtain ⟨reading, htaken, hvalue⟩ := take?_of_pick htokens (ofKind_of_kind hkind)
  refine ⟨reading, ?_, hvalue⟩
  unfold expect
  rw [htaken]

/-- A token of another kind is refused. -/
theorem expect_of_startsWith {kind : Kind} {expected : Expectation}
    (h : startsWith [kind] tokens = false) :
    expect kind expected tokens = .error (refuse expected tokens) := by
  unfold expect
  rw [take?_ofKind_eq_none h]

/-- What is expected and not found does not come first. -/
theorem startsWith_of_expect {kind : Kind} {expected : Expectation} {failure : Failure}
    (h : expect kind expected tokens = .error failure) : startsWith [kind] tokens = false := by
  cases tokens with
  | nil => rfl
  | cons token rest =>
      refine startsWith_cons.mpr fun hmem => ?_
      obtain ⟨reading, hread, -⟩ := expect_of_kind expected rfl (List.mem_singleton.mp hmem)
      cases h.symm.trans hread

end Single

section Breaks

/-- What stands before the first token that is no line break. -/
theorem skipSeparators_eq (tokens : List Token) :
    ∃ gap, tokens = gap ++ skipSeparators tokens ∧ ∀ token ∈ gap, token.kind = .separator := by
  refine ⟨tokens.takeWhile fun token => token.kind == .separator,
    List.takeWhile_append_dropWhile.symm, ?_⟩
  intro token htoken
  simpa using List.mem_takeWhile_imp htoken

/-- Where no line break comes first there is none to skip. -/
theorem skipSeparators_eq_self {tokens : List Token} (h : startsWith [.separator] tokens = false) :
    skipSeparators tokens = tokens := by
  cases tokens with
  | nil => rfl
  | cons first rest => simpa [startsWith, skipSeparators] using h

/-- Behind line breaks the list goes on with what stands there. -/
theorem skipSeparators_append {gap : List Token} (hgap : ∀ token ∈ gap, token.kind = .separator)
    {rest : List Token} (hrest : startsWith [.separator] rest = false) :
    skipSeparators (gap ++ rest) = rest := by
  unfold skipSeparators
  rw [List.dropWhile_append_of_pos (by simpa using hgap)]
  exact skipSeparators_eq_self hrest

/-- Behind the line breaks there is no further one. -/
theorem startsWith_skipSeparators (tokens : List Token) :
    startsWith [.separator] (skipSeparators tokens) = false := by
  unfold skipSeparators
  induction tokens with
  | nil => rfl
  | cons first rest ih =>
      by_cases hfirst : first.kind = .separator
      · simpa [hfirst] using ih
      · simp [hfirst, startsWith]

/-- A list that starts with something is not at its end. -/
theorem atEnd_of_startsWith {kinds : List Kind} {tokens : List Token}
    (h : startsWith kinds tokens = true) (heof : Kind.eof ∉ kinds) : atEnd tokens = false := by
  cases tokens with
  | nil => cases h
  | cons first rest =>
      have hmem : first.kind ∈ kinds := by simpa [startsWith] using h
      have hkind : first.kind ≠ .eof := fun hkind => heof (hkind ▸ hmem)
      simpa [atEnd] using hkind

end Breaks

end DiceLang
