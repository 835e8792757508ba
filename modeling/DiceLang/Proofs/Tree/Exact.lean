import DiceLang.Program.Reading
import DiceLang.Proofs.Tree.Complete

/-!
# Reading expressions is exact

A reader that fails says why: `expression_explains` traces every failure to a mistake in the list,
to parentheses that are nested too deeply or to a numeral that is too long.  With soundness and
completeness this settles what becomes of whole lists: `ofTokens_exact` says that reading and
grammar agree on every list that is not nested too deeply and whose numerals are not too long.
-/

namespace DiceLang

namespace Grammar

section Refusal

/-- The codes of the mistakes that are found in the tokens of an expression. -/
def mistakeCodes : List String := ["E101", "E102", "E103", "E104"]

/-- Why a list of tokens is not read to its end, when fewer than `limit` parentheses may be open. -/
inductive Refusal (limit : Nat) (tokens : List Token) : Failure → Prop
  /-- A token is not what the grammar asks for. -/
  | mistake {fault : Fault} (hcode : fault.cause.code ∈ mistakeCodes) :
      Refusal limit tokens (.fault fault)
  /-- The list is nested too deeply. -/
  | nesting {span : Option Span} (hdeep : ¬ Nested limit tokens) :
      Refusal limit tokens (.ofCause .nesting span)
  /-- A numeral of the list is too long. -/
  | overlong {token : Token} (htoken : token ∈ tokens) (hlong : Overlong token) :
      Refusal limit tokens .digitLimit

variable {α : Type} {limit : Nat} {tokens others : List Token} {failure : Failure}

/-- What a reader that fails says about the list that it was given. -/
def Explains (limit : Nat) (reader : Reader α) : Prop :=
  ∀ {tokens : List Token} {failure : Failure}, reader tokens = .error failure →
    Refusal limit tokens failure

/-- A refusal of what follows a balanced piece is a refusal of the whole. -/
theorem Refusal.append (h : Refusal limit others failure) (hbalanced : Balanced tokens) :
    Refusal limit (tokens ++ others) failure := by
  cases h with
  | mistake hcode => exact .mistake hcode
  | nesting hdeep => exact .nesting fun hnested => hdeep (hnested.rest hbalanced)
  | overlong htoken hlong => exact .overlong (List.mem_append_right tokens htoken) hlong

/-- A refusal of what a parenthesis holds is a refusal of the whole. -/
theorem Refusal.enclose {opening : Token} (h : Refusal limit tokens failure)
    (hopening : opening.kind = .lparen) : Refusal (limit + 1) (opening :: tokens) failure := by
  cases h with
  | mistake hcode => exact .mistake hcode
  | nesting hdeep => exact .nesting fun hnested => hdeep (hnested.inside hopening)
  | overlong htoken hlong => exact .overlong (List.mem_cons_of_mem opening htoken) hlong

/-- A refusal of what a reading has left is a refusal of the list it was read from. -/
theorem Refusal.behind {reading : Reading α tokens} {taken : List Token}
    (htakes : reading.Takes taken) (hbalanced : Balanced taken)
    (h : Refusal limit reading.rest failure) : Refusal limit tokens failure :=
  htakes ▸ h.append hbalanced

/-- A refusal of what stands behind a phrase is a refusal of the list that it was read from. -/
theorem Refusal.past {room : Nat} {level : Tree → Phrase} {reading : Reading Tree tokens}
    (hread : Sited (ReadFrom room level) reading) (h : Refusal limit reading.rest failure) :
    Refusal limit tokens failure := by
  obtain ⟨taken, hoccupies, hphrase⟩ := hread
  exact .behind hoccupies.takes hphrase.spells.balanced h

/-- What is refused is a mistake. -/
theorem refuse_eq_mistake (expected : Expectation) (others : List Token) :
    ∃ mistake, refuse expected others = .fault mistake ∧ mistake.cause.code ∈ mistakeCodes := by
  unfold refuse
  split
  · exact ⟨_, rfl, by simp [mistakeCodes, Cause.code]⟩
  · split <;> exact ⟨_, rfl, by simp [mistakeCodes, Cause.code]⟩

/-- To refuse a token is a mistake of the grammar. -/
theorem Refusal.refuse (expected : Expectation) (others : List Token) :
    Refusal limit tokens (refuse expected others) := by
  obtain ⟨mistake, hrefuse, hcode⟩ := refuse_eq_mistake expected others
  exact hrefuse ▸ .mistake hcode

theorem Refusal.expect {kind : Kind} {expected : Expectation}
    (h : expect kind expected tokens = .error failure) : Refusal limit tokens failure :=
  expect_eq_error h ▸ Refusal.refuse expected tokens

/-- A numeral that is not converted is too long, or out of range and reported as such. -/
theorem literal_eq_error {token : Token} (h : literal token = .error failure) :
    (failure = .digitLimit ∧ Text.digitLimit < token.lexeme.toList.length) ∨
    ∃ mistake, failure = .fault mistake ∧ mistake.span = some token.span ∧
      mistake.cause.code = "E104" := by
  unfold literal Text.readDigits? at h
  split at h
  · next hnone =>
    split at hnone
    · cases hnone
    · next hlong =>
      cases h
      exact .inl ⟨rfl, Nat.lt_of_not_le hlong⟩
  · split at h
    · cases h
    · cases h
      exact .inr ⟨_, rfl, rfl, rfl⟩

/-- A literal is refused because it is out of range or too long. -/
theorem Refusal.literal {token : Token} (hkind : token.kind = .number) (htoken : token ∈ tokens)
    (h : literal token = .error failure) : Refusal limit tokens failure := by
  rcases literal_eq_error h with ⟨rfl, hlong⟩ | ⟨mistake, rfl, -, hcode⟩
  · exact .overlong htoken ⟨hkind, hlong⟩
  · exact .mistake (by simp [hcode, mistakeCodes])

variable {nested : Reader Tree} (hsites : Sites (ReadFrom limit .expression) nested)
  (hnested : Explains limit nested)

include hsites hnested

/-- A primary says why it fails if what stands in parentheses does. -/
theorem primary_explains : Explains (limit + 1) (primary nested) := by
  intro tokens failure h
  unfold primary at h
  split at h
  · next opening hopening =>
    obtain ⟨hopen, hfirst⟩ := take?_ofKind_eq_some hopening
    have hinside : Refusal limit opening.rest failure := by
      rcases bind_eq_error h with hinner | ⟨inner, hinner, h⟩
      · exact hnested hinner
      · rcases bind_eq_error h with hclosing | ⟨closing, hclosing, h⟩
        · exact .past (hsites hinner) (.expect hclosing)
        · cases h
    exact hfirst.takes ▸ hinside.enclose hopen
  · rcases bind_eq_error h with hnumber | ⟨number, hnumber, h⟩
    · exact .expect hnumber
    · obtain ⟨hkind, hfirst⟩ := expect_eq_ok hnumber
      rcases bind_eq_error h with hvalue | ⟨value, hvalue, h⟩
      · exact .literal hkind (hfirst.takes.mem List.mem_cons_self) hvalue
      · cases h

/-- The loop over arguments says why it fails, of what stands behind those that have been read. -/
theorem moreArguments_explains (soFar : Reading (List Tree) tokens)
    (h : moreArguments nested soFar = .error failure) : Refusal limit soFar.rest failure := by
  fun_induction moreArguments nested soFar with
  | case1 soFar hcomma => cases h
  | case2 soFar comma hcomma ih =>
      obtain ⟨hkind, hsign⟩ := take?_ofKind_eq_some hcomma
      have hplain : Balanced [comma.value] := balanced_singleton (by simp [hkind, isPlain])
      rcases bind_eq_error h with hargument | ⟨argument, hargument, h⟩
      · exact .behind hsign.takes hplain (hnested hargument)
      · exact .behind hsign.takes hplain (.past (hsites hargument) (ih argument h))

theorem arguments_explains : Explains limit (arguments nested) := by
  intro tokens failure h
  unfold arguments at h
  split at h
  · cases h
  · rcases bind_eq_error h with hfirst | ⟨first, hfirst, h⟩
    · exact hnested hfirst
    · rcases bind_eq_error h with hall | ⟨all, hall, h⟩
      · exact .past (hsites hfirst) (moreArguments_explains hsites hnested _ hall)
      · obtain ⟨inner, hoccupies, hargs⟩ :=
          moreArguments_sited hsites _ (firstArgument_sited hsites hfirst) hall
        rcases bind_eq_error h with hclosing | ⟨closing, hclosing, h⟩
        · exact .behind hoccupies.takes hargs.spells.balanced (.expect hclosing)
        · cases h

theorem namedCommand_explains {name : Reading Token tokens}
    (h : namedCommand nested name = .error failure) :
    Refusal (limit + 1) name.rest failure := by
  unfold namedCommand at h
  split at h
  · next opening hopening =>
    obtain ⟨hopen, hfirst⟩ := take?_ofKind_eq_some hopening
    rcases bind_eq_error h with hargs | ⟨args, hargs, h⟩
    · exact hfirst.takes ▸ (arguments_explains hsites hnested hargs).enclose hopen
    · cases h
  · split at h
    · rcases bind_eq_error h with hrhs | ⟨rhs, hrhs, h⟩
      · exact primary_explains hsites hnested hrhs
      · cases h
    · cases h

theorem operandCommand_explains {lhs : Reading Tree tokens}
    (h : operandCommand nested lhs = .error failure) :
    Refusal (limit + 1) lhs.rest failure := by
  unfold operandCommand at h
  split at h
  · cases h
  · next name hname =>
    obtain ⟨hkind, hfirst⟩ := take?_ofKind_eq_some hname
    have hplain : Balanced [name.value] := balanced_singleton (by simp [hkind, isPlain])
    split at h
    · rcases bind_eq_error h with hrhs | ⟨rhs, hrhs, h⟩
      · exact .behind hfirst.takes hplain (primary_explains hsites hnested hrhs)
      · cases h
    · cases h

theorem command_explains : Explains (limit + 1) (command nested) := by
  intro tokens failure h
  unfold command at h
  split at h
  · next name hname =>
    obtain ⟨hkind, hfirst⟩ := take?_ofKind_eq_some hname
    have hplain : Balanced [name.value] := balanced_singleton (by simp [hkind, isPlain])
    exact .behind hfirst.takes hplain (namedCommand_explains hsites hnested h)
  · rcases bind_eq_error h with hlhs | ⟨lhs, hlhs, h⟩
    · exact primary_explains hsites hnested hlhs
    · exact .past (primary_sites hsites hlhs) (operandCommand_explains hsites hnested h)

omit hsites hnested in
theorem chain_explains {operand : Reader Tree} {pick : Token → Option Arithmetic}
    {level : Tree → Phrase} (hread : Sites (ReadFrom limit level) operand)
    (hoperand : Explains limit operand)
    (hpick : ∀ token op, pick token = some op → isPlain token.kind = true)
    (left : Reading Tree tokens) (h : chain operand pick left = .error failure) :
    Refusal limit left.rest failure := by
  fun_induction chain operand pick left with
  | case1 left hop => cases h
  | case2 left op hop ih =>
      obtain ⟨sign, hsign, hfirst⟩ := take?_eq_some hop
      have hplain : Balanced [sign] := balanced_singleton (hpick sign _ hsign)
      rcases bind_eq_error h with hright | ⟨right, hright, h⟩
      · exact .behind hfirst.takes hplain (hoperand hright)
      · exact .behind hfirst.takes hplain (.past (hread hright) (ih right h))

omit hsites hnested in
theorem comparison_explains {operand : Reader Tree} {pick : Token → Option Comparison}
    {level : Tree → Phrase} (hread : Sites (ReadFrom limit level) operand)
    (hoperand : Explains limit operand)
    (hpick : ∀ token op, pick token = some op → isPlain token.kind = true) :
    Explains limit (comparison operand pick) := by
  intro tokens failure h
  rcases bind_eq_error h with hleft | ⟨left, hleft, h⟩
  · exact hoperand hleft
  · refine .past (hread hleft) ?_
    split at h
    · cases h
    · next op hop =>
      obtain ⟨sign, hsign, hfirst⟩ := take?_eq_some hop
      rcases bind_eq_error h with hright | ⟨right, hright, h⟩
      · exact .behind hfirst.takes (balanced_singleton (hpick sign _ hsign)) (hoperand hright)
      · cases h

theorem product_explains : Explains (limit + 1) (product nested) := by
  intro tokens failure h
  rcases bind_eq_error h with hleft | ⟨left, hleft, h⟩
  · exact command_explains hsites hnested hleft
  · refine .past (command_sites hsites hleft)
      (chain_explains (command_sites hsites) (command_explains hsites hnested) ?_ left h)
    exact fun token op hop => (productOperator?_eq_some.mp hop).1 ▸ isPlain_arithmetic op

theorem sum_explains : Explains (limit + 1) (sum nested) := by
  intro tokens failure h
  rcases bind_eq_error h with hleft | ⟨left, hleft, h⟩
  · exact product_explains hsites hnested hleft
  · refine .past (product_sites hsites hleft)
      (chain_explains (product_sites hsites) (product_explains hsites hnested) ?_ left h)
    exact fun token op hop => (sumOperator?_eq_some.mp hop).1 ▸ isPlain_arithmetic op

theorem relation_explains : Explains (limit + 1) (relation nested) := by
  refine comparison_explains (sum_sites hsites) (sum_explains hsites hnested) ?_
  exact fun token op hop => (orderOperator?_eq_some.mp hop).1 ▸ isPlain_comparison op

/-- One level of nesting says why it fails if the next one does. -/
theorem equality_explains : Explains (limit + 1) (equality nested) := by
  refine comparison_explains (relation_sites hsites) (relation_explains hsites hnested) ?_
  exact fun token op hop => (equalityOperator?_eq_some.mp hop).1 ▸ isPlain_comparison op

omit hsites hnested in
/-- **Refusal.**  A list that is not read as an expression has a mistake, is nested too deeply or
holds a numeral that is too long. -/
theorem expression_explains (limit : Nat) : Explains limit (expression limit) := by
  induction limit with
  | zero =>
      intro tokens failure h
      have hdeep : ¬ Nested 0 tokens := fun hnested => Nat.not_lt_zero _ (hnested [] List.nil_prefix)
      cases tokens <;> cases h <;> exact .nesting hdeep
  | succ limit ih => exact equality_explains (expression_sites limit) ih

end Refusal

section Whole

variable {limit : Nat} {tokens front back : List Token} {tree : Tree}

/-- The last token of a list is an end token, and no other is. -/
def Closed (tokens : List Token) : Prop :=
  tokens.getLast?.map Token.kind = some .eof ∧ ∀ token ∈ tokens.dropLast, token.kind ≠ .eof

instance (tokens : List Token) : Decidable (Closed tokens) :=
  inferInstanceAs (Decidable (_ ∧ _))

/-- What is left of a closed list behind tokens that do not end it is closed as well. -/
theorem Closed.rest (h : Closed (front ++ back)) (hfront : ∀ token ∈ front, token.kind ≠ .eof) :
    Closed back := by
  obtain ⟨hlast, hothers⟩ := h
  cases back with
  | nil =>
      rw [List.append_nil] at hlast
      obtain ⟨last, hmem, hkind⟩ := Option.map_eq_some_iff.mp hlast
      exact absurd hkind (hfront last (List.mem_of_getLast? hmem))
  | cons token back =>
      rw [List.getLast?_append_cons] at hlast
      rw [List.dropLast_append_of_ne_nil (List.cons_ne_nil _ _)] at hothers
      exact ⟨hlast, fun other hother => hothers other (List.mem_append_right front hother)⟩

/-- An end token by itself is a closed list. -/
theorem closed_singleton {stop : Token} (h : stop.kind = .eof) : Closed [stop] :=
  ⟨by simp [h], nofun⟩

/-- A closed list remains so with other tokens in front of it. -/
theorem Closed.append (h : Closed back) (hfront : ∀ token ∈ front, token.kind ≠ .eof) :
    Closed (front ++ back) := by
  obtain ⟨hlast, hothers⟩ := h
  cases back with
  | nil => cases hlast
  | cons token back =>
      refine ⟨by rwa [List.getLast?_append_cons], ?_⟩
      rw [List.dropLast_append_of_ne_nil (List.cons_ne_nil _ _)]
      exact List.forall_mem_append.mpr ⟨hfront, hothers⟩

/-- Line breaks do not end a list. -/
theorem kind_ne_eof_of_separators {gap : List Token} (hgap : ∀ token ∈ gap, token.kind = .separator) :
    ∀ token ∈ gap, token.kind ≠ .eof := by
  intro token htoken
  simp [hgap token htoken]

/-- Nothing before a token of a closed list ends it. -/
theorem Closed.kind_ne_eof {front back : List Token} {token : Token}
    (h : Closed (front ++ token :: back)) : ∀ other ∈ front, other.kind ≠ .eof := by
  intro other hother
  refine h.2 other ?_
  rw [List.dropLast_append_of_ne_nil (List.cons_ne_nil _ _)]
  exact List.mem_append_left _ hother

/-- A closed list of which only the end is left. -/
theorem Closed.eq_singleton (h : Closed tokens) (hend : atEnd tokens = true) :
    ∃ stop, tokens = [stop] ∧ stop.kind = .eof := by
  cases tokens with
  | nil => simp [Closed] at h
  | cons stop others =>
      have hkind : stop.kind = .eof := by simpa [atEnd] using hend
      cases others with
      | nil => exact ⟨stop, rfl, hkind⟩
      | cons next others => exact absurd hkind (h.2 stop (by simp))

/-- The end token is part of no phrase. -/
theorem Spells.kind_ne_eof {phrase : Phrase} (h : Spells tokens phrase) :
    ∀ token ∈ tokens, token.kind ≠ .eof := by
  intro token htoken hkind
  have := h.kinds token htoken
  simp [hkind, isPlain] at this

/-- Sentences are closed. -/
theorem Sentence.closed (h : Sentence tokens tree) : Closed tokens := by
  obtain ⟨body, gap, stop, rfl, hspells, hgap, hstop⟩ := h
  exact ((closed_singleton hstop).append (kind_ne_eof_of_separators hgap)).append hspells.kind_ne_eof

/-- A list that is read to its end is a sentence. -/
theorem sentence_of_ofTokens (hclosed : Closed tokens)
    (h : Tree.ofTokens limit tokens = .ok tree) : Sentence tokens tree.erase := by
  obtain ⟨reading, hreading, h⟩ := bind_eq_ok h
  obtain ⟨body, htakes, hspells⟩ := expression_sound hreading
  dsimp only at h
  split at h
  · next hend =>
    cases h
    obtain ⟨gap, hbreaks, hgap⟩ := skipSeparators_eq reading.rest
    have hrest : Closed reading.rest := Closed.rest (htakes ▸ hclosed) hspells.kind_ne_eof
    rw [hbreaks] at hrest
    have hleft : Closed (skipSeparators reading.rest) :=
      hrest.rest fun token htoken => by simp [hgap token htoken]
    obtain ⟨stop, hstop, hkind⟩ := hleft.eq_singleton hend
    refine ⟨body, gap, stop, ?_, hspells, hgap, hkind⟩
    rw [← hstop, ← hbreaks]
    exact htakes
  · cases h

/-- Separators and an end token go on with no expression. -/
theorem startsWith_gap {gap : List Token} {stop : Token}
    (hgap : ∀ token ∈ gap, token.kind = .separator) (hstop : stop.kind = .eof) :
    startsWith afterExpression (gap ++ [stop]) = false := by
  cases gap with
  | nil => exact startsWith_cons.mpr (by rw [hstop]; decide)
  | cons token gap =>
      exact startsWith_cons.mpr (by rw [hgap token List.mem_cons_self]; decide)

/-- A sentence is read to its end if there is room for its parentheses. -/
theorem ofTokens_of_roomy (hroomy : Roomy limit tokens) (h : Sentence tokens tree) :
    ∃ read, Tree.ofTokens limit tokens = .ok read ∧ read.erase = tree := by
  obtain ⟨body, gap, stop, htokens, hspells, hgap, hstop⟩ := h
  have hpos : 0 < limit := hroomy.pos (by rw [htokens]; exact hspells.startsWith _)
  obtain ⟨n, rfl⟩ : ∃ n, limit = n + 1 := ⟨limit - 1, by omega⟩
  have hbody : Roomy (n + 1) body := Roomy.front (htokens ▸ hroomy)
  obtain ⟨reading, hreading, hvalue, hrest⟩ :=
    hspells.complete n tokens (gap ++ [stop]) hbody htokens (startsWith_gap hgap hstop)
  have hskip : skipSeparators (gap ++ [stop]) = [stop] :=
    skipSeparators_append hgap (startsWith_cons.mpr (by simp [hstop]))
  refine ⟨reading.value, ?_, hvalue⟩
  simp only [Tree.ofTokens, expression, hreading, ok_bind, hrest, hskip]
  simp [atEnd, hstop]
  rfl

/-- Every sentence that is fit for reading is read, as the tree that it spells. -/
theorem ofTokens_of_sentence (hfit : Fit limit tokens) (h : Sentence tokens tree) :
    ∃ read, Tree.ofTokens limit tokens = .ok read ∧ read.erase = tree :=
  ofTokens_of_roomy hfit.roomy h

/-- A list that is not read to its end has a mistake, is nested too deeply or holds a numeral that
is too long. -/
theorem ofTokens_explains {failure : Failure} (h : Tree.ofTokens limit tokens = .error failure) :
    Refusal limit tokens failure := by
  rcases bind_eq_error h with hreading | ⟨reading, hreading, h⟩
  · exact expression_explains limit hreading
  · dsimp only at h
    split at h
    · cases h
    · cases h
      exact .refuse .endOfInput _

/-- The numerals of a list are runs of digits, of any length. -/
def Legible (tokens : List Token) : Prop :=
  ∀ token ∈ tokens, token.kind = .number →
    token.lexeme.toList ≠ [] ∧ ∀ c ∈ token.lexeme.toList, c.isDigit = true

/-- A run of digits that is short enough to be converted. -/
def IsNumeral (lexeme : String) : Prop :=
  lexeme.toList ≠ [] ∧ (∀ c ∈ lexeme.toList, c.isDigit = true) ∧
    lexeme.toList.length ≤ Text.digitLimit

instance (lexeme : String) : Decidable (IsNumeral lexeme) :=
  have : Decidable (∀ c ∈ lexeme.toList, c.isDigit = true) := List.decidableBAll _ _
  inferInstanceAs (Decidable (_ ∧ _ ∧ _))

/-- How many parentheses may be open at once in a list that is sure to be read. -/
def safeNesting : Nat := 50

/-- The lists of tokens on which reading and grammar are compared: they are closed, their numbers
are numerals, and nowhere are more than `safeNesting` parentheses open. -/
structure Readable (tokens : List Token) : Prop where
  closed : Closed tokens
  numerals : ∀ token ∈ tokens, token.kind = .number → IsNumeral token.lexeme
  nesting : ∀ front, front <+: tokens → unclosed front ≤ safeNesting

instance (tokens : List Token) : Decidable (Readable tokens) :=
  decidable_of_iff (Closed tokens ∧
      (∀ token ∈ tokens, token.kind = .number → IsNumeral token.lexeme) ∧
      ∀ front ∈ tokens.inits, unclosed front ≤ safeNesting)
    ⟨fun ⟨hclosed, hnumerals, hnesting⟩ => ⟨hclosed, hnumerals, by simpa using hnesting⟩,
      fun h => ⟨h.closed, h.numerals, by simpa using h.nesting⟩⟩

/-- The numerals of a readable list are runs of digits. -/
theorem Readable.legible (h : Readable tokens) : Legible tokens := by
  intro token htoken hkind
  obtain ⟨hsome, hdigits, -⟩ := h.numerals token htoken hkind
  exact ⟨hsome, hdigits⟩

/-- A readable list is fit for any limit that is large enough for all of them. -/
theorem Readable.fit (h : Readable tokens) (hlimit : safeNesting < limit) : Fit limit tokens where
  nested := fun front hfront => (h.nesting front hfront).trans_lt hlimit
  short := by
    intro token htoken hlong
    have hshort := (h.numerals token htoken hlong.1).2.2
    exact Nat.not_lt_of_le hshort hlong.2

/-- On a list that is fit for reading only mistakes are refused. -/
theorem Refusal.code_mem {failure : Failure} (h : Refusal limit tokens failure)
    (hfit : Fit limit tokens) :
    ∃ mistake, failure = .fault mistake ∧ mistake.cause.code ∈ mistakeCodes := by
  cases h with
  | mistake hcode => exact ⟨_, rfl, hcode⟩
  | nesting hdeep => exact absurd hfit.nested hdeep
  | overlong htoken hlong => exact absurd hlong (hfit.short _ htoken)

/-- **Reading is exact.**  On every readable list, whatever limit of more than `safeNesting` is set
to the nesting: a tree is read, spans apart, if and only if the list spells it as a sentence of the
grammar; no list spells two trees; and a list that spells none is refused for a mistake with one of
the codes E101 to E104. -/
theorem ofTokens_exact (limit : Nat) (hlimit : safeNesting < limit) (tokens : List Token)
    (h : Readable tokens) :
    (∀ tree, (∃ read, Tree.ofTokens limit tokens = .ok read ∧ read.erase = tree) ↔
      Sentence tokens tree) ∧
    (∀ tree tree', Sentence tokens tree → Sentence tokens tree' → tree = tree') ∧
    ((¬ ∃ tree, Sentence tokens tree) → ∃ mistake,
      Tree.ofTokens limit tokens = .error (.fault mistake) ∧
        mistake.cause.code ∈ ["E101", "E102", "E103", "E104"]) := by
  have hfit : Fit limit tokens := h.fit hlimit
  refine ⟨?_, ?_, ?_⟩
  · intro tree
    constructor
    · rintro ⟨read, hread, rfl⟩
      exact sentence_of_ofTokens h.closed hread
    · exact ofTokens_of_sentence hfit
  · intro tree tree' htree htree'
    obtain ⟨read, hread, rfl⟩ := ofTokens_of_sentence hfit htree
    obtain ⟨read', hread', rfl⟩ := ofTokens_of_sentence hfit htree'
    cases hread.symm.trans hread'
    rfl
  · intro hnone
    cases hread : Tree.ofTokens limit tokens with
    | ok read => exact absurd ⟨_, sentence_of_ofTokens h.closed hread⟩ hnone
    | error failure =>
        obtain ⟨mistake, rfl, hcode⟩ := (ofTokens_explains hread).code_mem hfit
        exact ⟨mistake, rfl, hcode⟩

/-- A token at the start of a text. -/
def placed (kind : Kind) (lexeme : String) : Token := ⟨kind, lexeme, .origin, .origin⟩

/-- The tokens of `(2)x`, with a line break after them. -/
def markedTwo : List Token :=
  [placed .lparen "(", placed .number "2", placed .rparen ")", placed .identifier "x",
    placed .separator "\n", placed .eof ""]

/-- The tokens of `2 x` are readable, and they are a postfix command. -/
theorem ofTokens_exact_markedTwo :
    Readable markedTwo ∧ ∃ read, Tree.ofTokens nestingLimit markedTwo = .ok read ∧
      read.erase = .postfixed "x" (.integer 2 none) none := by
  have hreadable : Readable markedTwo := by decide +kernel
  have hlimit : safeNesting < nestingLimit := by
    unfold safeNesting nestingLimit
    omega
  have hexact := ofTokens_exact nestingLimit hlimit markedTwo hreadable
  have htwo : Spells [placed .number "2"] (.primary (.integer 2 none)) :=
    .number rfl (by decide)
  have hgroup : Spells (placed .lparen "(" :: ([placed .number "2"] ++ [placed .rparen ")"]))
      (.primary (.integer 2 none)) :=
    .group rfl (.unequated (.unordered (.summand (.factor (.operand htwo))))) rfl
  have hmarked : Spells _ (.expression (.postfixed "x" (.integer 2 none) none)) :=
    .unequated (.unordered (.summand (.factor (.postfixed hgroup
      (rfl : (placed .identifier "x").kind = .identifier)))))
  exact ⟨hreadable, (hexact.1 _).mpr ⟨_, [placed .separator "\n"], placed .eof "", rfl, hmarked,
    by decide, rfl⟩⟩

end Whole

end Grammar

end DiceLang
