import DiceLang.Proofs.Foresight

/-!
# Foresight of the readers of expressions

Every reader of the grammar is a pass (`pass_primary`, `pass_command` and so on), and a pass that
foresees.  `Level phrase` is the language of a level: what spells a phrase there.  Each level is given
a reader that foresees expressions for what stands in parentheses, so `expression_foresees` follows by
induction on the nesting.

For whole lists, `ofTokens_halts` says where reading stops: behind the beginning of a sentence, and at
a token with which no sentence goes on.
-/

namespace DiceLang

namespace Grammar

open Pass (choice token numeral peek many)

section Passes

variable {α β : Type} {tokens : List Token}

/-- What is made of the outcome of two steps may be made of that of the second. -/
theorem map_bind {γ : Type} (x : Except Failure α) (f : α → Except Failure β) (g : β → γ) :
    (x >>= f).map g = x >>= fun a => (f a).map g := by
  cases x <;> rfl

/-- A reader and then a pass over what it leaves. -/
theorem pass_andThen (reader : Reader α) (g : Pass) (tokens : List Token) :
    (pass reader).andThen g tokens = reader tokens >>= fun reading => g reading.rest := by
  unfold Pass.andThen pass
  cases reader tokens <;> rfl

/-- The tokens of which something can be made are those of some kinds. -/
def Picks (pick : Token → Option β) (kinds : List Kind) : Prop :=
  ∀ token : Token, (pick token).isSome = true ↔ token.kind ∈ kinds

/-- The tokens of one kind are picked by that kind. -/
theorem picks_ofKind (kind : Kind) : Picks (ofKind kind) [kind] := by
  intro token
  by_cases hkind : token.kind = kind <;> simp [ofKind, hkind]

/-- Something can be made of a token of one of the kinds. -/
theorem Picks.exists_pick {pick : Token → Option β} {kinds : List Kind} (h : Picks pick kinds)
    {token : Token} (hmem : token.kind ∈ kinds) : ∃ value, pick token = some value :=
  Option.isSome_iff_exists.mp ((h token).mpr hmem)

/-- Where a token is taken the first way of the choice is gone. -/
theorem choice_of_some {pick : Token → Option β} {kinds : List Kind} (hpick : Picks pick kinds)
    {reading : Reading β tokens} (h : take? pick tokens = some reading) (next otherwise : Pass) :
    choice kinds (fun _ => next) otherwise tokens = next reading.rest := by
  obtain ⟨first, hvalue, hfirst⟩ := take?_eq_some h
  have hmem : first.kind ∈ kinds := (hpick first).mp (by rw [hvalue]; rfl)
  exact (congrArg (choice _ _ _) hfirst.takes).trans (Pass.choice_of_mem hmem)

/-- Where no token is taken the other way of the choice is gone. -/
theorem choice_of_none {pick : Token → Option β} {kinds : List Kind} (hpick : Picks pick kinds)
    (h : take? pick tokens = none) (next : Token → Pass) (otherwise : Pass) :
    choice kinds next otherwise tokens = otherwise tokens := by
  cases tokens with
  | nil => rfl
  | cons first rest =>
      refine if_neg fun hmem => ?_
      obtain ⟨value, hvalue⟩ := hpick.exists_pick hmem
      simp [take?, hvalue] at h

/-- Expecting a token and going on from there is a pass over it. -/
theorem expect_bind (kind : Kind) (expected : Expectation) (next : Token → Pass)
    (tokens : List Token) :
    (expect kind expected tokens >>= fun reading => next reading.value reading.rest) =
      token kind expected next tokens := by
  unfold expect token
  split
  · next reading hreading =>
      obtain ⟨hkind, hfirst⟩ := take?_ofKind_eq_some hreading
      exact ((congrArg (choice _ _ _) hfirst.takes).trans
        (Pass.choice_of_mem (List.mem_singleton.mpr hkind))).symm
  · next hnone =>
      rw [choice_of_none (picks_ofKind kind) hnone]
      rfl

variable (nested : Reader Tree)

/-- A primary goes over an expression in parentheses or over a numeral. -/
theorem pass_primary :
    pass (primary nested) = choice [.lparen]
      (fun _ => (pass nested).andThen (token .rparen .closing fun _ => .ok)) numeral := by
  funext tokens
  unfold pass primary
  split
  · next opening hopening =>
      rw [choice_of_some (picks_ofKind _) hopening]
      show _ = (pass nested).andThen _ _
      rw [pass_andThen, map_bind]
      simp only [map_bind, ← expect_bind]
      rfl
  · next hnone =>
      rw [choice_of_none (picks_ofKind _) hnone, numeral, ← expect_bind, map_bind]
      simp only [map_bind]
      rfl

/-- Further arguments are expressions behind commas. -/
theorem pass_moreArguments (soFar : Reading (List Tree) tokens) :
    (moreArguments nested soFar).map Reading.rest = many [.comma] nested soFar.rest := by
  fun_induction moreArguments nested soFar with
  | case1 soFar hcomma =>
      rw [Pass.many_eq_choice, choice_of_none (picks_ofKind _) hcomma]
      rfl
  | case2 soFar comma hcomma ih =>
      rw [Pass.many_eq_choice, choice_of_some (picks_ofKind _) hcomma, pass_andThen, map_bind]
      exact congrArg _ (funext ih)

/-- Arguments are nothing or expressions with commas between them, through the closing parenthesis. -/
theorem pass_arguments :
    pass (arguments nested) = choice [.rparen] (fun _ => .ok)
      ((pass nested).andThen ((many [.comma] nested).andThen
        (token .rparen .commaOrClosing fun _ => .ok))) := by
  funext tokens
  unfold pass arguments
  split
  · next closing hclosing =>
      rw [choice_of_some (picks_ofKind _) hclosing]
      rfl
  · next hnone =>
      rw [choice_of_none (picks_ofKind _) hnone]
      show _ = (pass nested).andThen _ _
      rw [pass_andThen, map_bind]
      refine congrArg _ (funext fun first => ?_)
      unfold Pass.andThen
      have hmore := pass_moreArguments nested (first.as [first.value])
      rw [Reading.rest_as] at hmore
      rw [← hmore, map_bind]
      cases moreArguments nested (first.as [first.value]) with
      | error failure => rfl
      | ok all =>
          show Except.map _ (expect .rparen .commaOrClosing all.rest >>= _) = token _ _ _ all.rest
          rw [map_bind, ← expect_bind]
          rfl

/-- What may stand behind a name. -/
def namedPass : Pass :=
  choice [.lparen] (fun _ => pass (arguments nested)) (peek [.number] numeral .ok)

/-- What may stand behind an operand. -/
def operandPass : Pass :=
  choice [.identifier] (fun _ => peek [.number, .lparen] (pass (primary nested)) .ok) .ok

/-- At a numeral a primary goes over nothing but that. -/
theorem pass_primary_of_number (h : startsWith [.number] tokens = true) :
    pass (primary nested) tokens = numeral tokens := by
  rw [pass_primary]
  exact Pass.choice_of_startsWith (startsWith_of_disjoint (by decide) h)

/-- To look ahead is to ask which kind comes first. -/
theorem peek_eq (kinds : List Kind) (one other : Pass) (tokens : List Token) :
    peek kinds one other tokens = if startsWith kinds tokens then one tokens else other tokens := by
  cases tokens with
  | nil => rfl
  | cons first rest => simp [peek, choice, startsWith]

/-- What is left behind a name and all that belongs to it. -/
theorem pass_namedCommand (name : Reading Token tokens) :
    (namedCommand nested name).map Reading.rest = namedPass nested name.rest := by
  unfold namedCommand namedPass
  split
  · next opening hopening =>
      rw [choice_of_some (picks_ofKind _) hopening, map_bind]
      unfold pass
      cases arguments nested opening.rest <;> rfl
  · next hnone =>
      rw [choice_of_none (picks_ofKind _) hnone, peek_eq]
      split
      · next hnumber =>
          rw [map_bind, ← pass_primary_of_number nested hnumber]
          unfold pass
          cases primary nested name.rest <;> rfl
      · rfl

/-- What is left behind an operand and all that belongs to it. -/
theorem pass_operandCommand (lhs : Reading Tree tokens) :
    (operandCommand nested lhs).map Reading.rest = operandPass nested lhs.rest := by
  unfold operandCommand operandPass
  split
  · next hnone =>
      rw [choice_of_none (picks_ofKind _) hnone]
      rfl
  · next name hname =>
      rw [choice_of_some (picks_ofKind _) hname, peek_eq]
      split
      · rw [map_bind]
        unfold pass
        cases primary nested name.rest <;> rfl
      · rfl

/-- A command starts with a name, or else with a primary. -/
theorem pass_command :
    pass (command nested) = choice [.identifier] (fun _ => namedPass nested)
      ((pass (primary nested)).andThen (operandPass nested)) := by
  funext tokens
  unfold pass command
  split
  · next name hname =>
      rw [choice_of_some (picks_ofKind _) hname]
      exact pass_namedCommand nested name
  · next hnone =>
      rw [choice_of_none (picks_ofKind _) hnone]
      show _ = (pass (primary nested)).andThen _ _
      rw [pass_andThen, map_bind]
      exact congrArg _ (funext fun lhs => pass_operandCommand nested lhs)

/-- Further operands of a chain are operands behind signs. -/
theorem pass_chain {operand : Reader Tree} {pick : Token → Option Arithmetic} {kinds : List Kind}
    (hpick : Picks pick kinds) (left : Reading Tree tokens) :
    (chain operand pick left).map Reading.rest = many kinds operand left.rest := by
  fun_induction chain operand pick left with
  | case1 left hop =>
      rw [Pass.many_eq_choice, choice_of_none hpick hop]
      rfl
  | case2 left op hop ih =>
      rw [Pass.many_eq_choice, choice_of_some hpick hop, pass_andThen, map_bind]
      exact congrArg _ (funext ih)

/-- A chain goes over one operand and then over all others. -/
theorem pass_operand_chain {operand : Reader Tree} {pick : Token → Option Arithmetic}
    {kinds : List Kind} (hpick : Picks pick kinds) :
    pass (fun tokens => operand tokens >>= fun left => chain operand pick left) =
      (pass operand).andThen (many kinds operand) := by
  funext tokens
  rw [pass_andThen]
  unfold pass
  rw [map_bind]
  exact congrArg _ (funext fun left => pass_chain hpick left)

/-- A comparison goes over one operand and then over one more, if a sign is there. -/
theorem pass_comparison {operand : Reader Tree} {pick : Token → Option Comparison}
    {kinds : List Kind} (hpick : Picks pick kinds) :
    pass (comparison operand pick) =
      (pass operand).andThen (choice kinds (fun _ => pass operand) .ok) := by
  funext tokens
  rw [pass_andThen]
  unfold pass comparison
  rw [map_bind]
  refine congrArg _ (funext fun left => ?_)
  split
  · next hnone =>
      rw [choice_of_none hpick hnone]
      rfl
  · next op hop =>
      rw [choice_of_some hpick hop, map_bind]
      cases operand op.rest <;> rfl

/-- The signs of products. -/
theorem picks_productOperator? : Picks productOperator? [.star, .slash] := by
  intro token
  unfold productOperator?
  cases token.kind <;> decide

/-- The signs of sums. -/
theorem picks_sumOperator? : Picks sumOperator? [.plus, .minus] := by
  intro token
  unfold sumOperator?
  cases token.kind <;> decide

/-- The signs that order. -/
theorem picks_orderOperator? : Picks orderOperator? [.lt, .le, .gt, .ge] := by
  intro token
  unfold orderOperator?
  cases token.kind <;> decide

/-- The signs that equate. -/
theorem picks_equalityOperator? : Picks equalityOperator? [.eq, .ne] := by
  intro token
  unfold equalityOperator?
  cases token.kind <;> decide

end Passes

section Levels

variable {tokens front back : List Token}

/-- The language of a level: what spells a phrase there. -/
def Level (phrase : Tree → Phrase) (tokens : List Token) : Prop :=
  ∃ tree, Spells tokens (phrase tree)

/-- The language of the arguments of a call. -/
def ArgumentsLevel (tokens : List Token) : Prop := ∃ trees, Spells tokens (.arguments trees)

/-- A numeral by itself is a primary. -/
theorem level_number {number : Token} {value : Int} (hnumber : number.kind = .number)
    (hvalue : literal number = .ok value) : Level .primary [number] :=
  ⟨_, .number hnumber (literal_eq_ok hvalue).2⟩

/-- A call takes any arguments. -/
theorem ArgumentsLevel.call {name opening closing : Token} {inner : List Token}
    (h : ArgumentsLevel inner) (hname : name.kind = .identifier) (hopening : opening.kind = .lparen)
    (hclosing : closing.kind = .rparen) :
    Level .command (name :: opening :: (inner ++ [closing])) := by
  obtain ⟨args, hargs⟩ := h
  match args with
  | [] => generalize hphrase : Phrase.arguments [] = phrase at hargs; cases hargs <;> simp at hphrase
  | [arg] => exact ⟨_, .singleCall hname hopening hargs hclosing⟩
  | first :: second :: others => exact ⟨_, .call hname hopening hargs hclosing (by simp)⟩

/-- What makes the members of one language members of another. -/
def Extends (L M : List Token → Prop) (tail : List Token) : Prop :=
  ∀ front, L front → M (front ++ tail)

/-- Nothing needs to be added where the smaller language is a part of the larger one. -/
theorem extends_nil {L M : List Token → Prop} (h : ∀ front, L front → M front) :
    Extends L M [] := by
  intro front hfront
  rw [List.append_nil]
  exact h front hfront

section Loops

variable {α : Type} {L M : List Token → Prop} {operand : Reader α} {kinds : List Kind}
  (hoperand : ∀ tokens, Foresees [] L (pass operand) tokens)

include hoperand

/-- Further operands keep a phrase at its level, if the grammar lets it grow by one. -/
theorem foresees_further
    (hgrow : ∀ (front : List Token) (sign : Token) (back : List Token), M front →
      sign.kind ∈ kinds → L back → M (front ++ sign :: back)) (tokens : List Token) :
    Foresees [] (Extends M M) (many kinds operand) tokens := by
  refine foresees_many hoperand (extends_nil fun _ => id) ?_ tokens
  intro sign operand others hsign hoperand hothers front hfront
  have hlonger := hothers _ (hgrow front sign operand hfront hsign hoperand)
  rwa [List.append_assoc, List.cons_append] at hlonger

/-- **Operators that associate.** -/
theorem foresees_chain (hone : ∀ tokens, L tokens → M tokens)
    (hgrow : ∀ (front : List Token) (sign : Token) (back : List Token), M front →
      sign.kind ∈ kinds → L back → M (front ++ sign :: back)) (tokens : List Token) :
    Foresees [] M ((pass operand).andThen (many kinds operand)) tokens := by
  refine (hoperand tokens).andThen (fun rest _ => foresees_further hoperand hgrow rest)
    ⟨[], extends_nil fun _ => id⟩ ?_
  exact fun front back hfront hback => hback front (hone front hfront)

/-- **Operators that do not associate.** -/
theorem foresees_comparison (hone : ∀ tokens, L tokens → M tokens)
    (htwo : ∀ (front : List Token) (sign : Token) (back : List Token), L front →
      sign.kind ∈ kinds → L back → M (front ++ sign :: back)) (tokens : List Token) :
    Foresees [] M ((pass operand).andThen (choice kinds (fun _ => pass operand) .ok)) tokens := by
  refine (hoperand tokens).andThen (M := Extends L M) (fun rest _ => ?_) ⟨[], extends_nil hone⟩
    fun front back hfront hback => hback front hfront
  refine foresees_choice ?_ fun _ => foresees_stay (extends_nil hone)
  rintro sign others rfl hsign
  refine (((hoperand others).behind _).mono fun back hback => ?_).cons
  exact fun front hfront => htwo front sign back hfront hsign hback

end Loops

variable {nested : Reader Tree}
  (hnested : ∀ tokens, Foresees [] (Level .expression) (pass nested) tokens)

include hnested

/-- The language of a single token. -/
def Single (kind : Kind) (tokens : List Token) : Prop :=
  ∃ token : Token, tokens = [token] ∧ token.kind = kind

omit hnested in
/-- There is a token of every kind. -/
theorem exists_single (kind : Kind) : ∃ tokens, Single kind tokens := ⟨_, placed kind "", rfl, rfl⟩

/-- Primaries are foreseen if what stands in parentheses is. -/
theorem primary_foresees (tokens : List Token) :
    Foresees [] (Level .primary) (pass (primary nested)) tokens := by
  rw [pass_primary]
  refine foresees_choice ?_ fun _ => foresees_numeral fun _ _ => level_number
  rintro opening rest rfl hmem
  have hopening : opening.kind = .lparen := List.mem_singleton.mp hmem
  refine (((hnested rest).behind _).andThen (M := Single .rparen)
    (fun _ _ => foresees_single fun closing hclosing => ⟨closing, rfl, hclosing⟩)
    (exists_single _) ?_).cons
  rintro inner _ ⟨tree, hinner⟩ ⟨closing, rfl, hclosing⟩
  exact ⟨tree, .group hopening hinner hclosing⟩

/-- Behind the opening parenthesis of a call. -/
theorem arguments_foresees (tokens : List Token) :
    Foresees [] (fun tokens => ∃ inner closing, tokens = inner ++ [closing] ∧
      closing.kind = .rparen ∧ (inner = [] ∨ ArgumentsLevel inner))
      (pass (arguments nested)) tokens := by
  have hgrow : ∀ (front : List Token) (comma : Token) (back : List Token), ArgumentsLevel front →
      comma.kind ∈ [Kind.comma] → Level .expression back →
      ArgumentsLevel (front ++ comma :: back) := by
    rintro front comma back ⟨trees, hfront⟩ hcomma ⟨tree, hback⟩
    exact ⟨_, .further hfront (List.mem_singleton.mp hcomma) hback⟩
  have hone : ∀ tokens, Level .expression tokens → ArgumentsLevel tokens :=
    fun tokens ⟨tree, h⟩ => ⟨_, .argument h⟩
  rw [pass_arguments]
  refine foresees_choice ?_ fun _ => ?_
  · rintro closing rest rfl hmem
    exact (foresees_stay ⟨[], closing, rfl, List.mem_singleton.mp hmem, .inl rfl⟩).cons
  · have hall := foresees_chain hnested hone hgrow tokens
    refine (hall.andThen (M := Single .rparen) (g := token .rparen .commaOrClosing fun _ => .ok)
      (fun _ _ => foresees_single fun closing hclosing => ⟨closing, rfl, hclosing⟩)
      (exists_single _) ?_).congr fun other _ => ?_
    · rintro inner _ hinner ⟨closing, rfl, hclosing⟩
      exact ⟨inner, closing, rfl, hclosing, .inr hinner⟩
    · exact (bind_assoc (pass nested other) _ _).symm

/-- Behind a name a command is foreseen, whose first token the name is. -/
theorem namedPass_foresees {name : Token} (hname : name.kind = .identifier)
    (tokens : List Token) :
    Foresees [name] (fun taken => Level .command (name :: taken)) (namedPass nested) tokens := by
  refine foresees_choice ?_ fun _ => foresees_peek (fun _ => foresees_numeral ?_)
    fun _ => foresees_stay ⟨_, .nullary hname⟩
  · rintro opening rest rfl hmem
    have hopening : opening.kind = .lparen := List.mem_singleton.mp hmem
    refine (((arguments_foresees hnested rest).behind _).mono ?_).cons
    rintro _ ⟨inner, closing, rfl, hclosing, rfl | hargs⟩
    · exact ⟨_, .emptyCall hname hopening hclosing⟩
    · exact hargs.call hname hopening hclosing
  · intro number value hnumber hvalue
    exact ⟨_, .prefixed hname hnumber (.number hnumber (literal_eq_ok hvalue).2)⟩

/-- Behind an operand it is foreseen what makes a command of it. -/
theorem operandPass_foresees (tokens : List Token) :
    Foresees [] (Extends (Level .primary) (Level .command)) (operandPass nested) tokens := by
  refine foresees_choice ?_ fun _ => foresees_stay (extends_nil fun _ ⟨tree, h⟩ => ⟨tree, .operand h⟩)
  rintro name rest rfl hmem
  have hname : name.kind = .identifier := List.mem_singleton.mp hmem
  refine Foresees.cons (foresees_peek (fun _ => ?_) fun _ => foresees_stay ?_)
  · refine ((primary_foresees hnested rest).behind _).mono ?_
    rintro right ⟨rhs, hright⟩ left ⟨lhs, hleft⟩
    exact ⟨_, .infixed hleft hname hright⟩
  · rintro left ⟨lhs, hleft⟩
    exact ⟨_, .postfixed hleft hname⟩

theorem command_foresees (tokens : List Token) :
    Foresees [] (Level .command) (pass (command nested)) tokens := by
  rw [pass_command]
  refine foresees_choice ?_ fun _ => ?_
  · rintro name rest rfl hmem
    exact (namedPass_foresees hnested (List.mem_singleton.mp hmem) rest).cons
  · refine (primary_foresees hnested tokens).andThen
      (fun rest _ => operandPass_foresees hnested rest) ⟨[], extends_nil ?_⟩ ?_
    · exact fun _ ⟨tree, h⟩ => ⟨tree, .operand h⟩
    · exact fun front back hfront hback => hback front hfront

theorem product_foresees (tokens : List Token) :
    Foresees [] (Level .product) (pass (product nested)) tokens := by
  rw [show pass (product nested) = _ from pass_operand_chain picks_productOperator?]
  refine foresees_chain (command_foresees hnested) ?_ ?_ tokens
  · exact fun _ ⟨tree, h⟩ => ⟨tree, .factor h⟩
  · rintro front sign back ⟨lhs, hlhs⟩ hsign ⟨rhs, hrhs⟩
    obtain ⟨op, hop⟩ := picks_productOperator?.exists_pick hsign
    obtain ⟨hkind, hmul⟩ := productOperator?_eq_some.mp hop
    exact ⟨_, .multiplied hlhs hkind hmul hrhs⟩

theorem sum_foresees (tokens : List Token) :
    Foresees [] (Level .sum) (pass (sum nested)) tokens := by
  rw [show pass (sum nested) = _ from pass_operand_chain picks_sumOperator?]
  refine foresees_chain (product_foresees hnested) ?_ ?_ tokens
  · exact fun _ ⟨tree, h⟩ => ⟨tree, .summand h⟩
  · rintro front sign back ⟨lhs, hlhs⟩ hsign ⟨rhs, hrhs⟩
    obtain ⟨op, hop⟩ := picks_sumOperator?.exists_pick hsign
    obtain ⟨hkind, hadd⟩ := sumOperator?_eq_some.mp hop
    exact ⟨_, .added hlhs hkind hadd hrhs⟩

theorem relation_foresees (tokens : List Token) :
    Foresees [] (Level .relation) (pass (relation nested)) tokens := by
  rw [relation, pass_comparison picks_orderOperator?]
  refine foresees_comparison (sum_foresees hnested) ?_ ?_ tokens
  · exact fun _ ⟨tree, h⟩ => ⟨tree, .unordered h⟩
  · rintro front sign back ⟨lhs, hlhs⟩ hsign ⟨rhs, hrhs⟩
    obtain ⟨op, hop⟩ := picks_orderOperator?.exists_pick hsign
    obtain ⟨hkind, horder⟩ := orderOperator?_eq_some.mp hop
    exact ⟨_, .ordered hlhs hkind horder hrhs⟩

/-- One level of nesting is foreseen if the next one is. -/
theorem equality_foresees (tokens : List Token) :
    Foresees [] (Level .expression) (pass (equality nested)) tokens := by
  rw [equality, pass_comparison picks_equalityOperator?]
  refine foresees_comparison (relation_foresees hnested) ?_ ?_ tokens
  · exact fun _ ⟨tree, h⟩ => ⟨tree, .unequated h⟩
  · rintro front sign back ⟨lhs, hlhs⟩ hsign ⟨rhs, hrhs⟩
    obtain ⟨op, hop⟩ := picks_equalityOperator?.exists_pick hsign
    obtain ⟨hkind, hequal⟩ := equalityOperator?_eq_some.mp hop
    exact ⟨_, .equated hlhs hkind hequal hrhs⟩

omit hnested in
/-- **Foresight of expressions.** -/
theorem expression_foresees (limit : Nat) (tokens : List Token) :
    Foresees [] (Level .expression) (pass (expression limit)) tokens := by
  induction limit generalizing tokens with
  | zero =>
      refine ⟨nofun, fun hfail => .inl ?_⟩
      cases map_eq_error hfail
      cases tokens with
      | nil => exact ⟨none, rfl⟩
      | cons first rest => exact ⟨first.span, rfl⟩
  | succ limit ih => exact equality_foresees ih tokens

end Levels

/-- A whole list is an expression. -/
abbrev IsSentence (tokens : List Token) : Prop := ∃ tree, Sentence tokens tree

/-- **Where the reading of an expression stops.**  A list that is not read is nested too deeply, or
reading halts at one of its tokens. -/
theorem ofTokens_halts {limit : Nat} {tokens : List Token} {failure : Failure}
    (h : Tree.ofTokens limit tokens = .error failure) :
    TooDeep failure ∨ ∃ front rest, tokens = front ++ rest ∧
      Halts IsSentence (Tree.ofTokens limit) failure front rest := by
  have hforesees := expression_foresees limit tokens
  rcases bind_eq_error h with hreading | ⟨reading, hreading, h⟩
  · have hfail : pass (expression limit) tokens = .error failure := by
      rw [pass, hreading]
      rfl
    rcases hforesees.halts hfail with
      hdeep | ⟨front, rest, htokens, hstops, ⟨more, tree, hmore⟩, hsteady⟩
    · exact .inl hdeep
    · refine .inr ⟨front, rest, htokens, hstops, ?_, ?_, ?_⟩
      · exact fun token htoken => hmore.kind_ne_eof token (List.mem_append_left more htoken)
      · exact ⟨more ++ [placed .eof ""], tree, front ++ more, [], placed .eof "", by simp, hmore,
          nofun, rfl⟩
      · intro other hother
        have hexpression := map_eq_error (hsteady other hother)
        unfold Tree.ofTokens
        rw [hexpression]
        rfl
  · have hpass : pass (expression limit) tokens = .ok reading.rest := by
      rw [pass, hreading]
      rfl
    obtain ⟨taken, htokens, ⟨tree, htaken⟩, hsteady⟩ := hforesees.reads hpass
    obtain ⟨gap, hrest, hgap⟩ := skipSeparators_eq reading.rest
    dsimp only at h
    split at h
    · cases h
    · next hend =>
        cases h
        refine .inr ⟨taken ++ gap, skipSeparators reading.rest, ?_, .refused _ _ _, ?_, ?_, ?_⟩
        · rw [List.append_assoc, ← hrest]
          exact htokens
        · refine List.forall_mem_append.mpr ⟨htaken.kind_ne_eof, fun token htoken => ?_⟩
          simp [hgap token htoken]
        · exact ⟨[placed .eof ""], tree, taken, gap, placed .eof "", by simp, htaken, hgap, rfl⟩
        · intro other hother
          have hsame : (gap ++ other).head? = reading.rest.head? := by
            rw [hrest]
            exact head?_append_congr gap hother
          obtain ⟨reading', hreading', hrest'⟩ := map_eq_ok (hsteady _ hsame)
          have hskip : skipSeparators (gap ++ other) = other :=
            skipSeparators_append hgap
              ((startsWith_congr _ hother).trans (startsWith_skipSeparators _))
          unfold Tree.ofTokens
          rw [List.append_assoc, hreading', ok_bind]
          simp only [hrest', hskip, atEnd_congr hother, hend]
          exact congrArg Except.error (refuse_congr _ hother)

end Grammar

end DiceLang
