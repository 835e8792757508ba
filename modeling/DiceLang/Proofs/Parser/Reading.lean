import DiceLang.Proofs.Parser.Stack
import DiceLang.Proofs.Text.Decimal
import DiceLang.Proofs.Tree.Exact

/-!
# The parser on closed lists

On a list that an end token closes, and whose numerals are runs of digits, the parser does what the
readers do.  It stands at a position where a reader has the rest of the list in hand (`At`), and where
a reading has been made, the symbol before the position is the last one taken (`Reached`).

Between two calls of `expression` there are seven calls on the stack, whichever way they go, so a stack
of seven times so many places runs out exactly where the readers find parentheses nested too deeply.
`Matches` compares the outcomes, which are the same but for what is not reported as a mistake.
-/

namespace DiceLang

open Grammar (Closed Legible)

namespace Parser

section Places

variable {α β : Type} {whole rest origin : List Token} {token : Token} {pos : Nat}

/-- The rest of a closed list starts at a position. -/
structure At (whole rest : List Token) (pos : Nat) : Prop where
  drop_eq : whole.drop pos = rest
  closed : Closed rest

/-- The position is behind what a reading has taken, and the symbol before it ends the span of the
reading. -/
structure Reached (whole : List Token) (reading : Reading α origin) (pos : Nat) : Prop where
  at_rest : At whole reading.rest pos
  start : ∀ first ∈ origin.head?, reading.span.start = first.span.start
  stop : ∃ last, whole[pos - 1]? = some last ∧ reading.span.stop = last.span.stop

/-- Where a reading has been made does not depend on what was made of it. -/
theorem Reached.as {reading : Reading α origin} (h : Reached whole reading pos) (value : β) :
    Reached whole (reading.as value) pos := ⟨h.at_rest, h.start, h.stop⟩

/-- Two readings in a row start where the first does and end where the second does. -/
theorem Reached.andThen {first : Reading α origin} {second : Reading β first.rest} {before : Nat}
    (hfirst : Reached whole first before) (hsecond : Reached whole second pos) :
    Reached whole (first.andThen second) pos := ⟨hsecond.at_rest, hfirst.start, hsecond.stop⟩

/-- It is spanned to the symbol before the position. -/
theorem spanFrom_of_last {start last : Token} (hlast : whole[pos - 1]? = some last) :
    spanFrom start.symbol (whole.map Token.symbol) pos =
      .some (.ok (start.span.through last.span), pos) := by
  have hsymbol : (whole.map Token.symbol)[pos - 1]? = some last.symbol := by
    rw [List.getElem?_map, hlast, Option.map_some]
  rw [spanFrom, bind_of_ok (read_apply pos), bind_of_ok (get_apply pos), hsymbol]
  rfl

/-- From the first symbol of a reading to the one before the position its own span goes. -/
theorem Reached.spanFrom {others : List Token} {reading : Reading α (token :: others)}
    (h : Reached whole reading pos) :
    spanFrom token.symbol (whole.map Token.symbol) pos = .some (.ok reading.span, pos) := by
  obtain ⟨last, hlast, hstop⟩ := h.stop
  rw [spanFrom_of_last hlast, Span.through, ← hstop, ← h.start token rfl]

/-- At first the whole list is the rest. -/
theorem At.first (h : Closed whole) : At whole whole 0 := ⟨rfl, h⟩

/-- There is a token at every position of a closed list. -/
theorem At.exists_cons (h : At whole rest pos) : ∃ token others, rest = token :: others := by
  cases rest with
  | nil => simpa [Closed] using h.closed
  | cons token others => exact ⟨token, others, rfl⟩

/-- The first token of the rest stands at the position. -/
theorem At.getElem? (h : At whole (token :: rest) pos) : whole[pos]? = some token := by
  have hfirst := congrArg (·[0]?) h.drop_eq
  simpa using hfirst

/-- One token further on. -/
theorem At.next (h : At whole (token :: rest) pos) (hkind : token.kind ≠ .eof) :
    At whole rest (pos + 1) where
  drop_eq := by rw [← List.tail_drop, h.drop_eq, List.tail_cons]
  closed := (show Closed ([token] ++ rest) from h.closed).rest (List.forall_mem_singleton.mpr hkind)

/-- The rest is a part of the list. -/
theorem At.subset (h : At whole rest pos) : rest ⊆ whole :=
  h.drop_eq ▸ List.drop_subset pos whole

/-- The current symbol is the one for the first token of the rest. -/
theorem At.current (h : At whole (token :: rest) pos) :
    current (whole.map Token.symbol) pos = .some (.ok token.symbol, pos) :=
  current_of_getElem? (by rw [List.getElem?_map, h.getElem?, Option.map_some])

/-- The parser is at the end where the rest is. -/
theorem At.isAtEnd (h : At whole rest pos) :
    isAtEnd (whole.map Token.symbol) pos = .some (.ok (atEnd rest), pos) := by
  obtain ⟨token, others, rfl⟩ := h.exists_cons
  rw [Parser.isAtEnd, bind_of_ok h.current]
  rfl

/-- The kinds that the parser looks for come first in the rest. -/
theorem At.check (h : At whole rest pos) (kinds : List Kind) :
    check kinds (whole.map Token.symbol) pos = .some (.ok (startsWith kinds rest), pos) := by
  obtain ⟨token, others, rfl⟩ := h.exists_cons
  rw [Parser.check, bind_of_ok h.current]
  rfl

/-- Behind any token but the end the position goes on by one. -/
theorem At.advance (h : At whole (token :: rest) pos) (hkind : token.kind ≠ .eof) :
    advance (whole.map Token.symbol) pos = .some (.ok (), pos + 1) := by
  have hend : atEnd (token :: rest) = false := by simpa [atEnd] using hkind
  rw [Parser.advance, bind_of_ok h.isAtEnd, hend, if_neg Bool.false_ne_true, modify_apply]

/-- Something can be made of the same tokens, whether a reader or the parser looks at them, and of the
end token nothing. -/
structure SamePick (pick : Token → Option α) (pick' : Symbol → Option β) (value : α → β) : Prop where
  eq_map : ∀ token : Token, pick' token.symbol = (pick token).map value
  kind_ne_eof : ∀ token a, pick token = some a → token.kind ≠ .eof

/-- What a reader does not take the parser does not take. -/
theorem At.accept_of_none (h : At whole rest pos) {pick : Token → Option α}
    {pick' : Symbol → Option β} {value : α → β} (hpick : SamePick pick pick' value)
    (hnone : take? pick rest = none) :
    accept pick' (whole.map Token.symbol) pos = .some (.ok none, pos) := by
  obtain ⟨token, others, rfl⟩ := h.exists_cons
  have hnothing : pick token = none := by
    cases hfirst : pick token with
    | none => rfl
    | some a => simp [take?, hfirst] at hnone
  rw [accept, bind_of_ok h.current, hpick.eq_map, hnothing]
  rfl

/-- What a reader takes the parser takes. -/
theorem At.accept_of_some (h : At whole rest pos) {pick : Token → Option α}
    {pick' : Symbol → Option β} {value : α → β} (hpick : SamePick pick pick' value)
    {reading : Reading α rest} (hsome : take? pick rest = some reading) :
    accept pick' (whole.map Token.symbol) pos = .some (.ok (some (value reading.value)), pos + 1) ∧
      Reached whole reading (pos + 1) := by
  obtain ⟨token, others, rfl⟩ := h.exists_cons
  cases hfirst : pick token with
  | none => simp [take?, hfirst] at hsome
  | some a =>
      obtain rfl : ⟨a, token.span, others, Nat.lt_succ_self _⟩ = reading := by
        simpa [take?, hfirst] using hsome
      have hkind := hpick.kind_ne_eof token a hfirst
      have hfirst' : ∀ first ∈ (token :: others).head?, token.span.start = first.span.start := by
        rintro first ⟨⟩
        rfl
      refine ⟨?_, h.next hkind, hfirst', token, h.getElem?, rfl⟩
      rw [accept, bind_of_ok h.current, hpick.eq_map, hfirst]
      exact bind_of_ok (h.advance hkind) _

/-- Tokens are picked by their kind. -/
theorem samePick_ofKind {kind : Kind} (hkind : kind ≠ .eof) :
    SamePick (ofKind kind) (Symbol.ofKind kind) Token.symbol where
  eq_map := by
    intro token
    unfold ofKind Symbol.ofKind
    by_cases hfound : token.kind = kind
    · rw [if_pos hfound, if_pos (show token.symbol.kind = kind from hfound)]
      rfl
    · rw [if_neg hfound, if_neg (show ¬ token.symbol.kind = kind from hfound)]
      rfl
  kind_ne_eof := by
    intro token a hpick
    obtain ⟨rfl, hfound⟩ := ofKind_eq_some hpick
    exact hfound ▸ hkind

/-- Operators are picked by what they are for. -/
theorem samePick_operator {pick : Token → Option α} (hpick : ∀ token, token.kind = .eof →
    pick token = none) : SamePick pick (fun symbol => pick symbol.toToken) id where
  eq_map := fun token => Option.map_id.symm ▸ rfl
  kind_ne_eof := by
    intro token a hsome hkind
    cases hsome.symm.trans (hpick token hkind)

end Places

section Outcomes

variable {α β γ δ : Type} {whole rest origin : List Token} {pos : Nat}

/-- The parser comes to what a reader makes of a list: to the same value at a place that fits it, or to
an end that tells why the reader fails. -/
inductive Matches (value : α → β) (fits : α → Nat → Prop) (told : Failure → Abort → Nat → Prop) :
    Except Failure α → Part (Except Abort β × Nat) → Prop
  | ok {a : α} {pos : Nat} (h : fits a pos) :
      Matches value fits told (.ok a) (.some (.ok (value a), pos))
  | error {failure : Failure} {abort : Abort} {pos : Nat} (h : told failure abort pos) :
      Matches value fits told (.error failure) (.some (.error abort, pos))

/-- **Sequences.**  The second parts are compared at a place that fits what the first ones come to. -/
theorem Matches.bind {value : α → β} {value' : γ → δ} {fits : α → Nat → Prop}
    {fits' : γ → Nat → Prop} {told : Failure → Abort → Nat → Prop} {symbols : List Symbol}
    {x : Except Failure α} {m : Parser β} {f : α → Except Failure γ} {g : β → Parser δ}
    (h : Matches value fits told x (m symbols pos))
    (hf : ∀ a after, x = .ok a → fits a after →
      Matches value' fits' told (f a) (g (value a) symbols after)) :
    Matches value' fits' told (x >>= f) ((m >>= g) symbols pos) := by
  generalize hm : m symbols pos = outcome at h
  cases h with
  | ok hfits =>
      rw [bind_of_ok hm]
      exact hf _ _ rfl hfits
  | error htold =>
      rw [bind_of_error hm]
      exact .error htold

/-- The reasons may be told otherwise. -/
theorem Matches.imp {value : α → β} {fits : α → Nat → Prop} {told told' : Failure → Abort → Nat → Prop}
    {x : Except Failure α} {outcome : Part (Except Abort β × Nat)}
    (h : Matches value fits told x outcome)
    (htold : ∀ failure abort pos, told failure abort pos → told' failure abort pos) :
    Matches value fits told' x outcome := by
  cases h with
  | ok hfits => exact .ok hfits
  | error hone => exact .error (htold _ _ _ hone)

/-- The reasons that a reader and the parser have in common. -/
inductive SameEnd : Failure → Abort → Prop
  | fault (mistake : Fault) : SameEnd (.fault mistake) (.fault mistake)
  | overlong (text : String) : SameEnd .digitLimit (.unreadable text)

/-- Why a reader fails, and how the parser is broken off at a position: the parser notices that the
stack is used up where the reader finds parentheses nested too deeply. -/
inductive Told (whole : List Token) : Failure → Abort → Nat → Prop
  | same {failure : Failure} {abort : Abort} (h : SameEnd failure abort) (pos : Nat) :
      Told whole failure abort pos
  | nesting {token : Token} {pos : Nat} (h : whole[pos]? = some token) :
      Told whole (.ofCause .nesting token.span) .overflow pos

/-- The parser comes to what a reader makes of a list, at the place behind what it takes. -/
abbrev Mirrors (whole : List Token) (value : α → β) :
    Except Failure (Reading α origin) → Part (Except Abort β × Nat) → Prop :=
  Matches (fun reading => value reading.value) (Reached whole) (Told whole)

/-- A reader and a parser do the same wherever they are. -/
def Mirrored (whole : List Token) (value : α → β) (read : Reader α) (m : Parser β) : Prop :=
  ∀ ⦃rest : List Token⦄ ⦃pos : Nat⦄, At whole rest pos →
    Mirrors whole value (read rest) (m (whole.map Token.symbol) pos)

/-- What is said about a token that is refused. -/
theorem refuse_cons (expected : Expectation) (token : Token) (others : List Token) :
    refuse expected (token :: others) = .fault ⟨complaint expected token, token.span, none⟩ := by
  obtain ⟨kind, lexeme, start, stop⟩ := token
  cases kind <;> rfl

/-- The parser complains of what a reader refuses. -/
theorem At.complain (h : At whole rest pos) (expected : Expectation) :
    ∃ abort, SameEnd (refuse expected rest) abort ∧
      (complain expected : Parser β) (whole.map Token.symbol) pos = .some (.error abort, pos) := by
  obtain ⟨token, others, rfl⟩ := h.exists_cons
  rw [refuse_cons]
  exact ⟨_, .fault _, bind_of_ok h.current _⟩

/-- A token that is expected is taken, or it is complained of what stands there. -/
theorem At.consume (h : At whole rest pos) {kind : Kind} (hkind : kind ≠ .eof)
    (expected : Expectation) :
    Matches (fun reading : Reading Token rest => reading.value.symbol) (Reached whole)
      (fun failure abort _ => SameEnd failure abort) (expect kind expected rest)
      (consume kind expected (whole.map Token.symbol) pos) := by
  unfold expect Parser.consume
  cases htaken : take? (ofKind kind) rest with
  | some reading =>
      obtain ⟨haccept, hreached⟩ := h.accept_of_some (samePick_ofKind hkind) htaken
      rw [bind_of_ok haccept]
      exact .ok hreached
  | none =>
      obtain ⟨abort, hsame, hcomplain⟩ := h.complain (β := Symbol) expected
      rw [bind_of_ok (h.accept_of_none (samePick_ofKind hkind) htaken)]
      dsimp only
      rw [hcomplain]
      exact .error hsame

/-- A token that is expected is read alike. -/
theorem consume_mirrored {kind : Kind} (hkind : kind ≠ .eof) (expected : Expectation) :
    Mirrored whole Token.symbol (expect kind expected) (consume kind expected) :=
  fun _ _ hat => (hat.consume hkind expected).imp fun _ _ after hsame => .same hsame after

end Outcomes

section Levels

variable {whole : List Token} {nested : Reader Tree} {self : (callee : Callee) → Parser callee.Result}

/-- A run of digits is converted alike, and is a literal if it is small enough. -/
theorem numeral_mirrors {rest : List Token} {pos : Nat} {reading : Reading Token rest}
    (h : Reached whole reading pos) (hsome : reading.value.lexeme.toList ≠ [])
    (hdigits : ∀ c ∈ reading.value.lexeme.toList, c.isDigit = true) :
    Mirrors whole id
      (do return reading.as (.integer (← Grammar.literal reading.value) reading.value.span))
      (numeral reading.value.symbol (whole.map Token.symbol) pos) := by
  have hinteger := Text.integer?_digits hsome hdigits
  unfold Grammar.literal numeral
  cases hvalue : Text.readDigits? reading.value.lexeme.toList with
  | none =>
      rw [hvalue] at hinteger
      have hlexeme : Text.integer? reading.value.symbol.lexeme = none := hinteger
      rw [hlexeme]
      exact .error (.same (.overlong _) pos)
  | some n =>
      rw [hvalue] at hinteger
      have hlexeme : Text.integer? reading.value.symbol.lexeme = some (Int.ofNat n) := hinteger
      rw [hlexeme]
      dsimp only
      by_cases hbound : n < Grammar.literalBound
      · have hrange : -(Grammar.literalBound : Int) ≤ Int.ofNat n ∧
            Int.ofNat n < (Grammar.literalBound : Int) := by
          constructor
          · exact Int.le_trans (Int.neg_nonpos_of_nonneg (Int.natCast_nonneg _)) (Int.natCast_nonneg n)
          · exact Int.ofNat_lt.mpr hbound
        rw [if_pos hbound, if_pos hrange]
        exact .ok (h.as (Tree.integer n reading.value.span))
      · have hrange : ¬ (-(Grammar.literalBound : Int) ≤ Int.ofNat n ∧
            Int.ofNat n < (Grammar.literalBound : Int)) :=
          fun hboth => hbound (Int.ofNat_lt.mp hboth.2)
        rw [if_neg hbound, if_neg hrange]
        exact .error (.same (.fault _) pos)

/-- A number, or what is nested in parentheses. -/
theorem primary_mirrored (hlegible : Legible whole)
    (h : Mirrored whole id nested (self .expression)) :
    Mirrored whole id (Grammar.primary nested) (primary self) := by
  intro rest pos hat
  unfold Grammar.primary primary
  cases htaken : take? (ofKind .lparen) rest with
  | some opening =>
      obtain ⟨haccept, hopening⟩ := hat.accept_of_some (samePick_ofKind (by decide)) htaken
      rw [bind_of_ok haccept]
      refine Matches.bind (h hopening.at_rest) fun inner after _ hinner => ?_
      refine Matches.bind (consume_mirrored (by decide) .closing hinner.at_rest) ?_
      intro closing last _ hclosing
      exact .ok (hopening.andThen (hinner.andThen (hclosing.as inner.value)))
  | none =>
      rw [bind_of_ok (hat.accept_of_none (samePick_ofKind (by decide)) htaken)]
      refine Matches.bind (consume_mirrored (by decide) .number hat) ?_
      intro number after hread hnumber
      obtain ⟨hkind, hoccupies⟩ := expect_eq_ok hread
      have hmem := hat.subset (hoccupies.takes.mem (List.mem_singleton_self _))
      obtain ⟨hsome, hdigits⟩ := hlegible _ hmem hkind
      exact numeral_mirrors hnumber hsome hdigits

/-- Further arguments are added one by one. -/
theorem moreArguments_mirrors (h : Mirrored whole id nested (self .expression)) {rest : List Token}
    (soFar : Reading (List Tree) rest) {pos : Nat} (hreached : Reached whole soFar pos) :
    Mirrors whole id (Grammar.moreArguments nested soFar)
      (loop (nextArgument self) soFar.value (whole.map Token.symbol) pos) := by
  fun_induction Grammar.moreArguments nested soFar generalizing pos with
  | case1 soFar hcomma =>
      have haccept := hreached.at_rest.accept_of_none (samePick_ofKind (by decide)) hcomma
      rw [loop_apply, nextArgument, bind_assoc, bind_of_ok haccept]
      simp only [pure_bind]
      exact .ok hreached
  | case2 soFar comma hcomma ih =>
      obtain ⟨haccept, hnext⟩ :=
        hreached.at_rest.accept_of_some (samePick_ofKind (by decide)) hcomma
      rw [loop_apply, nextArgument, bind_assoc, bind_of_ok haccept]
      simp only [bind_assoc, pure_bind]
      refine Matches.bind (h hnext.at_rest) fun argument after _ hargument => ?_
      exact ih argument (hreached.andThen (hnext.andThen (hargument.as _)))

/-- The arguments of a call. -/
theorem arguments_mirrored (h : Mirrored whole id nested (self .expression)) :
    Mirrored whole id (Grammar.arguments nested) (arguments self) := by
  intro rest pos hat
  unfold Grammar.arguments arguments
  cases htaken : take? (ofKind .rparen) rest with
  | some closing =>
      obtain ⟨haccept, hclosing⟩ := hat.accept_of_some (samePick_ofKind (by decide)) htaken
      rw [bind_of_ok haccept]
      exact .ok (hclosing.as [])
  | none =>
      rw [bind_of_ok (hat.accept_of_none (samePick_ofKind (by decide)) htaken)]
      refine Matches.bind (h hat) fun first after _ hfirst => ?_
      refine Matches.bind (moreArguments_mirrors h _ (hfirst.as [first.value])) ?_
      intro all last _ hall
      refine Matches.bind (consume_mirrored (by decide) .commaOrClosing hall.at_rest) ?_
      intro closing _ _ hclosing
      exact .ok (hall.andThen (hclosing.as all.value))

/-- The value of the symbol for a name is its text. -/
theorem symbol_value {token : Token} (h : token.kind = .identifier) :
    token.symbol.value = token.lexeme := by
  simp [Token.symbol, Token.value?, h]

/-- What a name makes with the tokens behind it. -/
theorem named_mirrors (hprimary : Mirrored whole id (Grammar.primary nested) (self .primary))
    (harguments : Mirrored whole id (Grammar.arguments nested) (self .arguments))
    {start : Token} {others : List Token} {name : Reading Token (start :: others)} {pos : Nat}
    (hname : Reached whole name pos) (hkind : name.value.kind = .identifier) :
    Mirrors whole id (Grammar.namedCommand nested name)
      (named self start.symbol name.value.symbol (whole.map Token.symbol) pos) := by
  have hvalue := symbol_value hkind
  unfold Grammar.namedCommand named
  cases htaken : take? (ofKind .lparen) name.rest with
  | some opening =>
      obtain ⟨haccept, hopening⟩ :=
        hname.at_rest.accept_of_some (samePick_ofKind (by decide)) htaken
      rw [bind_of_ok haccept]
      refine Matches.bind (harguments hopening.at_rest) fun args after _ hargs => ?_
      have hwhole := hname.andThen (hopening.andThen hargs)
      rw [bind_of_ok hwhole.spanFrom, hvalue]
      exact .ok (hwhole.as (Grammar.callNode name.value.lexeme args.value _))
  | none =>
      rw [bind_of_ok (hname.at_rest.accept_of_none (samePick_ofKind (by decide)) htaken)]
      dsimp only
      rw [bind_of_ok (hname.at_rest.check [.number])]
      by_cases hnumber : startsWith [.number] name.rest = true
      · rw [if_pos hnumber, if_pos hnumber]
        refine Matches.bind (hprimary hname.at_rest) fun rhs after _ hrhs => ?_
        have hwhole := hname.andThen hrhs
        rw [bind_of_ok hwhole.spanFrom, hvalue]
        exact .ok (hwhole.as (Tree.prefixed name.value.lexeme rhs.value _))
      · rw [if_neg hnumber, if_neg hnumber, hvalue]
        exact .ok (hname.as (Tree.nullary name.value.lexeme name.value.span))

/-- What an operand makes with the tokens behind it. -/
theorem operand_mirrors (hprimary : Mirrored whole id (Grammar.primary nested) (self .primary))
    {start : Token} {others : List Token} {lhs : Reading Tree (start :: others)} {pos : Nat}
    (hlhs : Reached whole lhs pos) :
    Mirrors whole id (Grammar.operandCommand nested lhs)
      (operand self start.symbol lhs.value (whole.map Token.symbol) pos) := by
  unfold Grammar.operandCommand operand
  cases htaken : take? (ofKind .identifier) lhs.rest with
  | none =>
      rw [bind_of_ok (hlhs.at_rest.accept_of_none (samePick_ofKind (by decide)) htaken)]
      exact .ok hlhs
  | some name =>
      obtain ⟨haccept, hname⟩ :=
        hlhs.at_rest.accept_of_some (samePick_ofKind (by decide)) htaken
      have hvalue := symbol_value (take?_ofKind_eq_some htaken).1
      rw [bind_of_ok haccept]
      dsimp only
      rw [bind_of_ok (hname.at_rest.check [.number, .lparen])]
      by_cases hopens : startsWith [.number, .lparen] name.rest = true
      · rw [if_pos hopens, if_pos hopens]
        refine Matches.bind (hprimary hname.at_rest) fun rhs after _ hrhs => ?_
        have hwhole := hlhs.andThen (hname.andThen hrhs)
        rw [bind_of_ok hwhole.spanFrom, hvalue]
        exact .ok (hwhole.as (Tree.infixed name.value.lexeme lhs.value rhs.value _))
      · have hwhole := hlhs.andThen hname
        rw [if_neg hopens, if_neg hopens, bind_of_ok hwhole.spanFrom, hvalue]
        exact .ok (hwhole.as (Tree.postfixed name.value.lexeme lhs.value _))

/-- A command of any shape, or an operand without one. -/
theorem call_mirrored (hprimary : Mirrored whole id (Grammar.primary nested) (self .primary))
    (harguments : Mirrored whole id (Grammar.arguments nested) (self .arguments)) :
    Mirrored whole id (Grammar.command nested) (call self) := by
  intro rest pos hat
  obtain ⟨start, others, rfl⟩ := hat.exists_cons
  unfold Grammar.command call
  rw [bind_of_ok hat.current]
  cases htaken : take? (ofKind .identifier) (start :: others) with
  | some name =>
      obtain ⟨haccept, hname⟩ := hat.accept_of_some (samePick_ofKind (by decide)) htaken
      rw [bind_of_ok haccept]
      exact named_mirrors hprimary harguments hname (take?_ofKind_eq_some htaken).1
  | none =>
      rw [bind_of_ok (hat.accept_of_none (samePick_ofKind (by decide)) htaken)]
      refine Matches.bind (hprimary hat) fun lhs after _ hlhs => ?_
      exact operand_mirrors hprimary hlhs

/-- Further operands are added one by one. -/
theorem chain_mirrors {read : Reader Tree} {operand : Parser Tree}
    {pick : Token → Option Arithmetic} (hpick : ∀ token, token.kind = .eof → pick token = none)
    (h : Mirrored whole id read operand) {rest : List Token} (left : Reading Tree rest) {pos : Nat}
    (hleft : Reached whole left pos) :
    Mirrors whole id (Grammar.chain read pick left)
      (loop (nextOperand operand pick) left.value (whole.map Token.symbol) pos) := by
  fun_induction Grammar.chain read pick left generalizing pos with
  | case1 left hop =>
      have haccept := hleft.at_rest.accept_of_none (samePick_operator hpick) hop
      rw [loop_apply, nextOperand, bind_assoc, bind_of_ok haccept]
      simp only [pure_bind]
      exact .ok hleft
  | case2 left op hop ih =>
      obtain ⟨haccept, hnext⟩ := hleft.at_rest.accept_of_some (samePick_operator hpick) hop
      rw [loop_apply, nextOperand, bind_assoc, bind_of_ok haccept]
      simp only [bind_assoc, pure_bind]
      refine Matches.bind (h hnext.at_rest) fun right after _ hright => ?_
      exact ih right (hleft.andThen (hnext.andThen (hright.as _)))

/-- Operands with operators between them. -/
theorem chain_mirrored {read : Reader Tree} {operand : Parser Tree}
    {pick : Token → Option Arithmetic} (hpick : ∀ token, token.kind = .eof → pick token = none)
    (h : Mirrored whole id read operand) :
    Mirrored whole id (fun tokens => do Grammar.chain read pick (← read tokens))
      (chain operand pick) := by
  intro rest pos hat
  refine Matches.bind (h hat) fun left after _ hleft => ?_
  exact chain_mirrors hpick h left hleft

/-- One operand, or two with an operator between them. -/
theorem comparison_mirrored {read : Reader Tree} {operand : Parser Tree}
    {pick : Token → Option Comparison} (hpick : ∀ token, token.kind = .eof → pick token = none)
    (h : Mirrored whole id read operand) :
    Mirrored whole id (Grammar.comparison read pick) (comparison operand pick) := by
  intro rest pos hat
  refine Matches.bind (h hat) fun left after _ hleft => ?_
  cases htaken : take? pick left.rest with
  | none =>
      rw [bind_of_ok (hleft.at_rest.accept_of_none (samePick_operator hpick) htaken)]
      exact .ok hleft
  | some op =>
      obtain ⟨haccept, hop⟩ := hleft.at_rest.accept_of_some (samePick_operator hpick) htaken
      rw [bind_of_ok haccept]
      refine Matches.bind (h hop.at_rest) fun right last _ hright => ?_
      exact .ok (hleft.andThen (hop.andThen (hright.as (Tree.comparison op.value _ _ _))))

/-- **Nested expressions.**  From one expression to the next one inside it there are seven calls. -/
theorem expression_mirrored (hlegible : Legible whole) (limit : Nat) :
    Mirrored whole id (Grammar.expression limit) (invoke (7 * limit) .expression) := by
  induction limit with
  | zero =>
      intro rest pos hat
      obtain ⟨token, others, rfl⟩ := hat.exists_cons
      exact .error (.nesting hat.getElem?)
  | succ limit ih =>
      have hprimary : Mirrored whole id (Grammar.primary (Grammar.expression limit))
          (invoke (7 * limit + 1) .primary) := primary_mirrored hlegible ih
      have harguments : Mirrored whole id (Grammar.arguments (Grammar.expression limit))
          (invoke (7 * limit + 1) .arguments) := arguments_mirrored ih
      have hcall : Mirrored whole id (Grammar.command (Grammar.expression limit))
          (invoke (7 * limit + 2) .call) := call_mirrored hprimary harguments
      have hproduct : Mirrored whole id (Grammar.product (Grammar.expression limit))
          (invoke (7 * limit + 3) .multiplicative) :=
        chain_mirrored (fun token h => by rw [Grammar.productOperator?, h]) hcall
      have hsum : Mirrored whole id (Grammar.sum (Grammar.expression limit))
          (invoke (7 * limit + 4) .additive) :=
        chain_mirrored (fun token h => by rw [Grammar.sumOperator?, h]) hproduct
      have hrelation : Mirrored whole id (Grammar.relation (Grammar.expression limit))
          (invoke (7 * limit + 5) .relational) :=
        comparison_mirrored (fun token h => by rw [Grammar.orderOperator?, h]) hsum
      exact comparison_mirrored (fun token h => by rw [Grammar.equalityOperator?, h]) hrelation

end Levels

end Parser

end DiceLang
