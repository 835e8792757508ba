import DiceLang.Tree.Reading
import Mathlib.Data.List.Infix

/-!
# The grammar of expressions, as a relation

`Spells tokens phrase` says that a piece of a token list, taken as a whole, is a phrase of the
language.  It is the grammar itself: one rule for each alternative, no lookahead and no order of
trial.  Trees stand in it without their spans.  `Sentence tokens tree` adds what may follow an
expression, line breaks and the end token, so it speaks of whole lists.

The facts about the relation that a reader of token lists relies on:

* `Spells.balanced`: a phrase closes every parenthesis that it opens, and by `Spells.matched` none
  that it has not opened;
* `Spells.kinds`: the end token, line breaks, arrows and quotes are part of no phrase.

Nesting is measured by `unclosed`, and `Nested limit tokens` bounds it at every place of a list.  A
list is `Fit` for reading if it is nested within a bound and has no overlong numerals.  What a reader
really needs is a little less, that the list is `Roomy`; `Roomy.rest` carries that past a phrase, and
`Roomy.inside` into a parenthesis.
-/

namespace DiceLang

/-- The kind of token that writes an operator of arithmetic. -/
def Arithmetic.sign : Arithmetic → Kind
  | add => .plus
  | sub => .minus
  | mul => .star
  | div => .slash

/-- The kind of token that writes an operator of comparison. -/
def Comparison.sign : Comparison → Kind
  | eq => .eq
  | ne => .ne
  | lt => .lt
  | le => .le
  | gt => .gt
  | ge => .ge

namespace Grammar

/-- What a piece of a token list can be read as, from the tightest binding to the loosest. -/
inductive Phrase
  | primary (tree : Tree)
  | command (tree : Tree)
  | product (tree : Tree)
  | sum (tree : Tree)
  | relation (tree : Tree)
  | expression (tree : Tree)
  /-- One or more arguments of a call, with commas between them. -/
  | arguments (trees : List Tree)

/-- The grammar: which lists of tokens spell which phrases. -/
inductive Spells : List Token → Phrase → Prop
  /-- `primary := NUMBER`, of a value that a literal may have. -/
  | number {token : Token}
      (hkind : token.kind = .number)
      (hrange : Nat.ofDigitChars 10 token.lexeme.toList 0 < Nat.pow 2 127) :
      Spells [token] (.primary (.integer (Nat.ofDigitChars 10 token.lexeme.toList 0) none))
  /-- `primary := ( expression )` -/
  | group {opening closing : Token} {inner : List Token} {tree : Tree}
      (hopening : opening.kind = .lparen)
      (hinner : Spells inner (.expression tree))
      (hclosing : closing.kind = .rparen) :
      Spells (opening :: (inner ++ [closing])) (.primary tree)
  /-- `command := IDENTIFIER ( )` -/
  | emptyCall {name opening closing : Token}
      (hname : name.kind = .identifier)
      (hopening : opening.kind = .lparen)
      (hclosing : closing.kind = .rparen) :
      Spells [name, opening, closing] (.command (.call name.lexeme [] none))
  /-- `command := IDENTIFIER ( argument )`, which is a prefix command. -/
  | singleCall {name opening closing : Token} {inner : List Token} {arg : Tree}
      (hname : name.kind = .identifier)
      (hopening : opening.kind = .lparen)
      (hinner : Spells inner (.arguments [arg]))
      (hclosing : closing.kind = .rparen) :
      Spells (name :: opening :: (inner ++ [closing]))
        (.command (.prefixed name.lexeme arg none))
  /-- `command := IDENTIFIER ( arguments )`, with two arguments or more. -/
  | call {name opening closing : Token} {inner : List Token} {args : List Tree}
      (hname : name.kind = .identifier)
      (hopening : opening.kind = .lparen)
      (hinner : Spells inner (.arguments args))
      (hclosing : closing.kind = .rparen)
      (hmany : 2 ≤ args.length) :
      Spells (name :: opening :: (inner ++ [closing])) (.command (.call name.lexeme args none))
  /-- `command := IDENTIFIER NUMBER` -/
  | prefixed {name number : Token} {rhs : Tree}
      (hname : name.kind = .identifier)
      (hnumber : number.kind = .number)
      (hrhs : Spells [number] (.primary rhs)) :
      Spells [name, number] (.command (.prefixed name.lexeme rhs none))
  /-- `command := IDENTIFIER` -/
  | nullary {name : Token}
      (hname : name.kind = .identifier) :
      Spells [name] (.command (.nullary name.lexeme none))
  /-- `command := primary IDENTIFIER primary` -/
  | infixed {name : Token} {left right : List Token} {lhs rhs : Tree}
      (hlhs : Spells left (.primary lhs))
      (hname : name.kind = .identifier)
      (hrhs : Spells right (.primary rhs)) :
      Spells (left ++ name :: right) (.command (.infixed name.lexeme lhs rhs none))
  /-- `command := primary IDENTIFIER` -/
  | postfixed {name : Token} {left : List Token} {lhs : Tree}
      (hlhs : Spells left (.primary lhs))
      (hname : name.kind = .identifier) :
      Spells (left ++ [name]) (.command (.postfixed name.lexeme lhs none))
  /-- `command := primary` -/
  | operand {tokens : List Token} {tree : Tree}
      (hoperand : Spells tokens (.primary tree)) :
      Spells tokens (.command tree)
  /-- `product := command` -/
  | factor {tokens : List Token} {tree : Tree}
      (hfactor : Spells tokens (.command tree)) :
      Spells tokens (.product tree)
  /-- `product := product (* | /) command` -/
  | multiplied {sign : Token} {op : Arithmetic} {left right : List Token} {lhs rhs : Tree}
      (hlhs : Spells left (.product lhs))
      (hsign : sign.kind = op.sign)
      (hop : op = .mul ∨ op = .div)
      (hrhs : Spells right (.command rhs)) :
      Spells (left ++ sign :: right) (.product (.arithmetic op lhs rhs none))
  /-- `sum := product` -/
  | summand {tokens : List Token} {tree : Tree}
      (hsummand : Spells tokens (.product tree)) :
      Spells tokens (.sum tree)
  /-- `sum := sum (+ | -) product` -/
  | added {sign : Token} {op : Arithmetic} {left right : List Token} {lhs rhs : Tree}
      (hlhs : Spells left (.sum lhs))
      (hsign : sign.kind = op.sign)
      (hop : op = .add ∨ op = .sub)
      (hrhs : Spells right (.product rhs)) :
      Spells (left ++ sign :: right) (.sum (.arithmetic op lhs rhs none))
  /-- `relation := sum` -/
  | unordered {tokens : List Token} {tree : Tree}
      (hsum : Spells tokens (.sum tree)) :
      Spells tokens (.relation tree)
  /-- `relation := sum (< | <= | > | >=) sum` -/
  | ordered {sign : Token} {op : Comparison} {left right : List Token} {lhs rhs : Tree}
      (hlhs : Spells left (.sum lhs))
      (hsign : sign.kind = op.sign)
      (hop : op = .lt ∨ op = .le ∨ op = .gt ∨ op = .ge)
      (hrhs : Spells right (.sum rhs)) :
      Spells (left ++ sign :: right) (.relation (.comparison op lhs rhs none))
  /-- `expression := relation` -/
  | unequated {tokens : List Token} {tree : Tree}
      (hrelation : Spells tokens (.relation tree)) :
      Spells tokens (.expression tree)
  /-- `expression := relation (= | !=) relation` -/
  | equated {sign : Token} {op : Comparison} {left right : List Token} {lhs rhs : Tree}
      (hlhs : Spells left (.relation lhs))
      (hsign : sign.kind = op.sign)
      (hop : op = .eq ∨ op = .ne)
      (hrhs : Spells right (.relation rhs)) :
      Spells (left ++ sign :: right) (.expression (.comparison op lhs rhs none))
  /-- `arguments := expression` -/
  | argument {tokens : List Token} {tree : Tree}
      (hargument : Spells tokens (.expression tree)) :
      Spells tokens (.arguments [tree])
  /-- `arguments := arguments , expression` -/
  | further {comma : Token} {front back : List Token} {trees : List Tree} {tree : Tree}
      (hfront : Spells front (.arguments trees))
      (hcomma : comma.kind = .comma)
      (hback : Spells back (.expression tree)) :
      Spells (front ++ comma :: back) (.arguments (trees ++ [tree]))

/-- A command is an expression by itself. -/
theorem Spells.expression {tokens : List Token} {tree : Tree} (h : Spells tokens (.command tree)) :
    Spells tokens (.expression tree) :=
  .unequated (.unordered (.summand (.factor h)))

/-- A whole list of tokens that is one expression: nothing but line breaks may stand between it
and the end token. -/
def Sentence (tokens : List Token) (tree : Tree) : Prop :=
  ∃ body gap stop, tokens = body ++ (gap ++ [stop]) ∧ Spells body (.expression tree) ∧
    (∀ token ∈ gap, token.kind = .separator) ∧ stop.kind = .eof

/-- Whether a token is of a given kind. -/
def isKind (kind : Kind) (token : Token) : Bool := token.kind == kind

/-- Tokens of other kinds do not count. -/
theorem countP_isKind_eq_zero {tokens : List Token} {kind : Kind}
    (h : ∀ token ∈ tokens, token.kind ≠ kind) :
    tokens.countP (isKind kind) = 0 := by
  rw [List.countP_eq_zero]
  intro token htoken
  simpa [isKind] using h token htoken

/-- How many parentheses more are opened than closed in a list. -/
def unclosed (tokens : List Token) : Nat :=
  tokens.countP (isKind .lparen) - tokens.countP (isKind .rparen)

/-- At every place of a list fewer than `limit` parentheses are open. -/
def Nested (limit : Nat) (tokens : List Token) : Prop :=
  ∀ front, front <+: tokens → unclosed front < limit

instance (limit : Nat) (tokens : List Token) : Decidable (Nested limit tokens) :=
  decidable_of_iff (∀ front ∈ tokens.inits, unclosed front < limit) (by simp [Nested])

/-- The kinds of token that phrases are made of besides parentheses. -/
def isPlain : Kind → Bool
  | .lparen | .rparen | .quote | .arrow | .separator | .illegal | .eof => false
  | _ => true

/-- The signs of arithmetic are part of phrases. -/
theorem isPlain_arithmetic (op : Arithmetic) : isPlain op.sign = true := by
  cases op <;> rfl

theorem isPlain_comparison (op : Comparison) : isPlain op.sign = true := by
  cases op <;> rfl

/-- **Phrases are well parenthesised.**  What holds of plain tokens and is kept by putting lists
one behind the other and by putting parentheses around them holds of every phrase. -/
theorem Spells.parenthesised {P : List Token → Prop} (hnil : P [])
    (hplain : ∀ token : Token, isPlain token.kind = true → P [token])
    (happend : ∀ front back, P front → P back → P (front ++ back))
    (henclose : ∀ (opening closing : Token) (inner : List Token), opening.kind = .lparen →
      closing.kind = .rparen → P inner → P (opening :: (inner ++ [closing])))
    {tokens : List Token} {phrase : Phrase} (h : Spells tokens phrase) : P tokens := by
  have hidentifier : ∀ name : Token, name.kind = .identifier → P [name] :=
    fun name hname => hplain name (by simp [hname, isPlain])
  have hnumber : ∀ number : Token, number.kind = .number → P [number] :=
    fun number hkind => hplain number (by simp [hkind, isPlain])
  have hbetween : ∀ (front back : List Token) (token : Token), isPlain token.kind = true →
      P front → P back → P (front ++ token :: back) := by
    intro front back token htoken hfront hback
    exact happend front (token :: back) hfront (happend [token] back (hplain token htoken) hback)
  induction h with
  | number hkind => exact hnumber _ hkind
  | group hopening _ hclosing ih => exact henclose _ _ _ hopening hclosing ih
  | emptyCall hname hopening hclosing =>
      exact happend [_] [_, _] (hidentifier _ hname) (henclose _ _ [] hopening hclosing hnil)
  | singleCall hname hopening _ hclosing ih =>
      exact happend [_] _ (hidentifier _ hname) (henclose _ _ _ hopening hclosing ih)
  | call hname hopening _ hclosing _ ih =>
      exact happend [_] _ (hidentifier _ hname) (henclose _ _ _ hopening hclosing ih)
  | prefixed hname hkind =>
      exact happend [_] [_] (hidentifier _ hname) (hnumber _ hkind)
  | nullary hname => exact hidentifier _ hname
  | infixed _ hname _ ihl ihr => exact hbetween _ _ _ (by simp [hname, isPlain]) ihl ihr
  | postfixed _ hname ih => exact happend _ _ ih (hidentifier _ hname)
  | operand _ ih => exact ih
  | factor _ ih => exact ih
  | multiplied _ hsign _ _ ihl ihr =>
      exact hbetween _ _ _ (hsign ▸ isPlain_arithmetic _) ihl ihr
  | summand _ ih => exact ih
  | added _ hsign _ _ ihl ihr => exact hbetween _ _ _ (hsign ▸ isPlain_arithmetic _) ihl ihr
  | unordered _ ih => exact ih
  | ordered _ hsign _ _ ihl ihr => exact hbetween _ _ _ (hsign ▸ isPlain_comparison _) ihl ihr
  | unequated _ ih => exact ih
  | equated _ hsign _ _ ihl ihr => exact hbetween _ _ _ (hsign ▸ isPlain_comparison _) ihl ihr
  | argument _ ih => exact ih
  | further _ hcomma _ ihl ihr => exact hbetween _ _ _ (by simp [hcomma, isPlain]) ihl ihr

/-- A list closes as many parentheses as it opens. -/
def Balanced (tokens : List Token) : Prop :=
  tokens.countP (isKind .lparen) = tokens.countP (isKind .rparen)

/-- Two balanced lists are balanced in a row. -/
theorem Balanced.append {front back : List Token} (hfront : Balanced front)
    (hback : Balanced back) : Balanced (front ++ back) := by
  unfold Balanced at *
  rw [List.countP_append, List.countP_append, hfront, hback]

/-- Tokens that are no parentheses are balanced. -/
theorem balanced_of_kinds {tokens : List Token}
    (h : ∀ token ∈ tokens, token.kind ≠ .lparen ∧ token.kind ≠ .rparen) : Balanced tokens := by
  unfold Balanced
  rw [countP_isKind_eq_zero fun token htoken => (h token htoken).1,
    countP_isKind_eq_zero fun token htoken => (h token htoken).2]

/-- Line breaks are no parentheses. -/
theorem balanced_of_gap {gap : List Token} (hgap : ∀ token ∈ gap, token.kind = .separator) :
    Balanced gap :=
  balanced_of_kinds fun token htoken => by simp [hgap token htoken]

/-- A token of any kind but the two parentheses is balanced by itself. -/
theorem balanced_of_kind {token : Token} {kind : Kind} (h : token.kind = kind)
    (hkind : kind ≠ .lparen ∧ kind ≠ .rparen) : Balanced [token] :=
  balanced_of_kinds (List.forall_mem_singleton.mpr (h ▸ hkind))

/-- A token that is no parenthesis is balanced by itself. -/
theorem balanced_singleton {token : Token} (hplain : isPlain token.kind = true) :
    Balanced [token] := by
  refine balanced_of_kinds (List.forall_mem_singleton.mpr ⟨?_, ?_⟩) <;>
    exact fun hkind => by simp [hkind, isPlain] at hplain

/-- Phrases close every parenthesis that they open. -/
theorem Spells.balanced {tokens : List Token} {phrase : Phrase} (h : Spells tokens phrase) :
    Balanced tokens := by
  refine h.parenthesised (P := Balanced) rfl (fun _ => balanced_singleton)
    (fun _ _ => Balanced.append) ?_
  intro opening closing inner hopening hclosing hinner
  unfold Balanced at hinner ⊢
  simp [isKind, hopening, hclosing, hinner]

/-- Nowhere does a list close more parentheses than it has opened, and in the end as many. -/
structure Matched (tokens : List Token) : Prop where
  opened : ∀ front, front <+: tokens →
    front.countP (isKind .rparen) ≤ front.countP (isKind .lparen)
  balanced : Balanced tokens

instance (tokens : List Token) : Decidable (Matched tokens) :=
  decidable_of_iff ((∀ front ∈ tokens.inits,
      front.countP (isKind .rparen) ≤ front.countP (isKind .lparen)) ∧
      tokens.countP (isKind .lparen) = tokens.countP (isKind .rparen))
    ⟨fun ⟨hopened, hbalanced⟩ => ⟨by simpa using hopened, hbalanced⟩,
      fun h => ⟨by simpa using h.opened, h.balanced⟩⟩

namespace Matched

variable {front back : List Token}

/-- Two lists that match do so in a row. -/
theorem append (hfront : Matched front) (hback : Matched back) : Matched (front ++ back) where
  opened := by
    intro piece hpiece
    rcases List.prefix_or_prefix_of_prefix hpiece (List.prefix_append front back) with
      hinside | ⟨rest, rfl⟩
    · exact hfront.opened piece hinside
    · have hrest := hback.opened rest ((List.prefix_append_right_inj front).mp hpiece)
      have hbalanced := hfront.balanced
      unfold Balanced at hbalanced
      simp only [List.countP_append]
      omega
  balanced := hfront.balanced.append hback.balanced

/-- Tokens that are no parentheses match. -/
theorem of_no_parentheses {tokens : List Token}
    (h : ∀ token ∈ tokens, token.kind ≠ .lparen ∧ token.kind ≠ .rparen) : Matched tokens where
  opened := by
    intro piece hpiece
    have hnone := countP_isKind_eq_zero fun token htoken => (h token htoken).2
    have hpart := hpiece.sublist.countP_le (p := isKind .rparen)
    omega
  balanced := balanced_of_kinds h

/-- A plain token matches by itself. -/
theorem singleton {token : Token} (hplain : isPlain token.kind = true) : Matched [token] := by
  refine of_no_parentheses (List.forall_mem_singleton.mpr ⟨?_, ?_⟩) <;>
    exact fun hkind => by simp [hkind, isPlain] at hplain

/-- A list that matches does so between parentheses. -/
theorem enclose {opening closing : Token} {inner : List Token} (hopening : opening.kind = .lparen)
    (hclosing : closing.kind = .rparen) (hinner : Matched inner) :
    Matched (opening :: (inner ++ [closing])) where
  opened := by
    intro piece hpiece
    rcases List.prefix_cons_iff.mp hpiece with rfl | ⟨rest, rfl, hrest⟩
    · exact Nat.le_refl _
    · rcases List.prefix_concat_iff.mp hrest with rfl | hinside
      · have hbalanced := hinner.balanced
        unfold Balanced at hbalanced
        simp [isKind, hopening, hclosing] at hbalanced ⊢
        omega
      · have hpart := hinner.opened rest hinside
        simp [isKind, hopening] at hpart ⊢
        omega
  balanced := by
    have hbalanced := hinner.balanced
    unfold Balanced at hbalanced ⊢
    simp [isKind, hopening, hclosing] at hbalanced ⊢
    omega

end Matched

/-- The parentheses of a phrase match. -/
theorem Spells.matched {tokens : List Token} {phrase : Phrase} (h : Spells tokens phrase) :
    Matched tokens := by
  exact h.parenthesised (.of_no_parentheses nofun) (fun _ => Matched.singleton)
    (fun _ _ => Matched.append)
    (fun _ _ _ => Matched.enclose)

/-- Phrases are made of parentheses and plain tokens: no quote, arrow, line break, illegal
character or end token is part of one. -/
theorem Spells.kinds {tokens : List Token} {phrase : Phrase} (h : Spells tokens phrase) :
    ∀ token ∈ tokens,
      isPlain token.kind = true ∨ token.kind = .lparen ∨ token.kind = .rparen := by
  refine h.parenthesised (P := fun tokens => ∀ token ∈ tokens,
    isPlain token.kind = true ∨ token.kind = .lparen ∨ token.kind = .rparen) ?_ ?_ ?_ ?_
  · simp
  · intro token hplain
    simp [hplain]
  · intro front back hfront hback token htoken
    rcases List.mem_append.mp htoken with hmem | hmem
    · exact hfront token hmem
    · exact hback token hmem
  · intro opening closing inner hopening hclosing hinner token htoken
    rcases List.mem_cons.mp htoken with rfl | htoken
    · exact Or.inr (Or.inl hopening)
    · rcases List.mem_append.mp htoken with hmem | hmem
      · exact hinner token hmem
      · rw [List.mem_singleton.mp hmem]
        exact Or.inr (Or.inr hclosing)

/-- The kinds of token that a phrase starts with. -/
def openers : List Kind := [.number, .identifier, .lparen]

/-- **First tokens.**  A phrase is not empty, and starts with a number, a name or a parenthesis. -/
theorem Spells.startsWith {tokens : List Token} {phrase : Phrase} (h : Spells tokens phrase)
    (rest : List Token) : DiceLang.startsWith openers (tokens ++ rest) = true := by
  induction h generalizing rest with
  | number hkind => simp [DiceLang.startsWith, openers, hkind]
  | group hopening => simp [DiceLang.startsWith, openers, hopening]
  | emptyCall hname => simp [DiceLang.startsWith, openers, hname]
  | singleCall hname => simp [DiceLang.startsWith, openers, hname]
  | call hname => simp [DiceLang.startsWith, openers, hname]
  | prefixed hname => simp [DiceLang.startsWith, openers, hname]
  | nullary hname => simp [DiceLang.startsWith, openers, hname]
  | infixed _ _ _ ih => simpa using ih _
  | postfixed _ _ ih => simpa using ih _
  | operand _ ih => exact ih rest
  | factor _ ih => exact ih rest
  | multiplied _ _ _ _ ih => simpa using ih _
  | summand _ ih => exact ih rest
  | added _ _ _ _ ih => simpa using ih _
  | unordered _ ih => exact ih rest
  | ordered _ _ _ _ ih => simpa using ih _
  | unequated _ ih => exact ih rest
  | equated _ _ _ _ ih => simpa using ih _
  | argument _ ih => exact ih rest
  | further _ _ _ ih => simpa using ih _

namespace Nested

variable {limit : Nat} {tokens others : List Token}

/-- The beginning of a list is not nested more deeply than the whole. -/
theorem front (h : Nested limit (tokens ++ others)) : Nested limit tokens :=
  fun piece hpiece => h piece (hpiece.trans (List.prefix_append tokens others))

/-- **Nesting behind a balanced piece.**  What follows it is nested no deeper than the whole. -/
theorem rest (h : Nested limit (tokens ++ others)) (hbalanced : Balanced tokens) :
    Nested limit others := by
  intro piece hpiece
  have hwhole : unclosed (tokens ++ piece) < limit :=
    h _ ((List.prefix_append_right_inj tokens).mpr hpiece)
  unfold Balanced at hbalanced
  simp only [unclosed, List.countP_append] at hwhole ⊢
  omega

/-- Inside an opening parenthesis one level less is left. -/
theorem inside {opening : Token} (h : Nested (limit + 1) (opening :: tokens))
    (hopening : opening.kind = .lparen) : Nested limit tokens := by
  have hcount : ∀ piece, piece <+: tokens →
      piece.countP (isKind .lparen) + 1 - piece.countP (isKind .rparen) < limit + 1 := by
    intro piece hpiece
    simpa [unclosed, isKind, hopening] using
      h (opening :: piece) (List.cons_prefix_cons.mpr ⟨rfl, hpiece⟩)
  have hone : 0 + 1 < limit + 1 := by simpa using hcount [] List.nil_prefix
  intro piece hpiece
  have := hcount piece hpiece
  unfold unclosed
  omega

/-- A list may be nested within any larger limit. -/
theorem mono {larger : Nat} (h : Nested limit tokens) (hle : limit ≤ larger) :
    Nested larger tokens :=
  fun piece hpiece => (h piece hpiece).trans_le hle

/-- A list that follows a balanced one adds to its nesting no more than its own. -/
theorem append (h : Nested limit tokens) (hbalanced : Balanced tokens)
    (hothers : Nested limit others) : Nested limit (tokens ++ others) := by
  intro piece hpiece
  rcases List.prefix_or_prefix_of_prefix hpiece (List.prefix_append tokens others) with
    hinside | ⟨back, rfl⟩
  · exact h piece hinside
  · have hback := hothers back ((List.prefix_append_right_inj tokens).mp hpiece)
    unfold Balanced at hbalanced
    simp only [unclosed, List.countP_append] at hback ⊢
    omega

/-- Parentheses around a list take one level more. -/
theorem enclose {opening closing : Token} (h : Nested limit tokens)
    (hopening : opening.kind = .lparen) (hclosing : closing.kind = .rparen) :
    Nested (limit + 1) (opening :: (tokens ++ [closing])) := by
  intro piece hpiece
  rcases List.prefix_cons_iff.mp hpiece with rfl | ⟨inner, rfl, hinner⟩
  · exact Nat.succ_pos limit
  · rcases List.prefix_concat_iff.mp hinner with rfl | hinside
    · have hwhole := h tokens List.prefix_rfl
      simp [unclosed, isKind, hopening, hclosing] at hwhole ⊢
      omega
    · have hpart := h inner hinside
      simp [unclosed, isKind, hopening] at hpart ⊢
      omega

end Nested

/-- A numeral that is too long to be converted. -/
def Overlong (token : Token) : Prop :=
  token.kind = .number ∧ Text.digitLimit < token.lexeme.toList.length

/-- Only numerals can be too long. -/
theorem not_overlong {token : Token} (h : token.kind ≠ .number) : ¬ Overlong token :=
  fun hlong => h hlong.1

/-- A number in range is written with few enough digits. -/
theorem not_overlong_of_digits {token : Token} {n : Nat} (hbound : n < literalBound)
    (hdigits : token.lexeme.toList = Nat.toDigits 10 n) : ¬ Overlong token := by
  have hlength : token.lexeme.toList.length ≤ 39 := by
    rw [hdigits, Nat.length_toDigits_le_iff (by decide) (by decide)]
    exact hbound.trans (by decide)
  rintro ⟨-, hlong⟩
  unfold Text.digitLimit at hlong
  omega

/-- What a reader of expressions can cope with: fewer than `limit` open parentheses, and numerals
that are short enough to be converted. -/
structure Fit (limit : Nat) (tokens : List Token) : Prop where
  nested : Nested limit tokens
  short : ∀ token ∈ tokens, ¬ Overlong token

namespace Fit

variable {limit : Nat} {tokens others : List Token}

/-- The beginning of a list is fit for what the whole is fit for. -/
theorem front (h : Fit limit (tokens ++ others)) : Fit limit tokens where
  nested := h.nested.front
  short := fun token htoken => h.short token (List.mem_append_left others htoken)

theorem rest (h : Fit limit (tokens ++ others)) (hbalanced : Balanced tokens) :
    Fit limit others where
  nested := h.nested.rest hbalanced
  short := fun token htoken => h.short token (List.mem_append_right tokens htoken)

/-- What stands behind a first token that is no parenthesis is fit as well. -/
theorem uncons {token : Token} (h : Fit limit (token :: others)) (hbalanced : Balanced [token]) :
    Fit limit others := by
  have hwhole : Fit limit ([token] ++ others) := h
  exact hwhole.rest hbalanced

/-- What is fit within a limit is fit within a larger one. -/
theorem mono {larger : Nat} (h : Fit limit tokens) (hle : limit ≤ larger) : Fit larger tokens where
  nested := h.nested.mono hle
  short := h.short

/-- The empty list is fit if there is room at all. -/
theorem nil : Fit (limit + 1) [] where
  nested := by
    intro piece hpiece
    rw [List.prefix_nil.mp hpiece]
    exact Nat.succ_pos limit
  short := nofun

theorem singleton {token : Token} (hkind : token.kind ≠ .lparen) (hshort : ¬ Overlong token) :
    Fit (limit + 1) [token] where
  nested := by
    intro piece hpiece
    have hnone : piece.countP (isKind .lparen) = 0 := by
      have hall : [token].countP (isKind .lparen) = 0 := by simp [isKind, hkind]
      exact Nat.le_zero.mp (hall ▸ hpiece.sublist.countP_le)
    unfold unclosed
    omega
  short := List.forall_mem_singleton.mpr hshort

/-- Two lists are fit in a row if the first of them is balanced. -/
theorem append (h : Fit limit tokens) (hbalanced : Balanced tokens) (hothers : Fit limit others) :
    Fit limit (tokens ++ others) where
  nested := h.nested.append hbalanced hothers.nested
  short := List.forall_mem_append.mpr ⟨h.short, hothers.short⟩

/-- A token that is no parenthesis may stand before a list that is fit. -/
theorem cons {token : Token} (hbalanced : Balanced [token]) (hshort : ¬ Overlong token)
    (h : Fit limit tokens) : Fit limit (token :: tokens) := by
  have hpos : 0 < limit := h.nested [] List.nil_prefix
  obtain ⟨n, rfl⟩ : ∃ n, limit = n + 1 := ⟨limit - 1, by omega⟩
  have hkind : token.kind ≠ .lparen := by
    intro hkind
    simp [Balanced, isKind, hkind] at hbalanced
  exact (singleton hkind hshort).append hbalanced h

/-- Parentheses around a list take one level more. -/
theorem enclose {opening closing : Token} (h : Fit limit tokens) (hopening : opening.kind = .lparen)
    (hclosing : closing.kind = .rparen) : Fit (limit + 1) (opening :: (tokens ++ [closing])) where
  nested := h.nested.enclose hopening hclosing
  short := by
    have hfirst : ¬ Overlong opening := not_overlong (by simp [hopening])
    have hlast : ¬ Overlong closing := not_overlong (by simp [hclosing])
    exact List.forall_mem_cons.mpr
      ⟨hfirst, List.forall_mem_append.mpr ⟨h.short, List.forall_mem_singleton.mpr hlast⟩⟩

end Fit

/-- What a reader of expressions gets by with: fewer than `limit` parentheses are open before every
token but a closing one, so that a call without arguments needs no room inside; and numerals are
short enough to be converted. -/
structure Roomy (limit : Nat) (tokens : List Token) : Prop where
  nested : ∀ front next rest, tokens = front ++ next :: rest → next.kind ≠ .rparen →
    unclosed front < limit
  short : ∀ token ∈ tokens, ¬ Overlong token

theorem Fit.roomy {limit : Nat} {tokens : List Token} (h : Fit limit tokens) :
    Roomy limit tokens where
  nested := fun front next rest htokens _ => h.nested front ⟨next :: rest, htokens.symm⟩
  short := h.short

namespace Roomy

variable {limit : Nat} {tokens others : List Token}

/-- The beginning of a list has the room that the whole has. -/
theorem front (h : Roomy limit (tokens ++ others)) : Roomy limit tokens where
  nested := by
    intro front next rest htokens hnext
    exact h.nested front next (rest ++ others) (by simp [htokens]) hnext
  short := fun token htoken => h.short token (List.mem_append_left others htoken)

theorem rest (h : Roomy limit (tokens ++ others)) (hbalanced : Balanced tokens) :
    Roomy limit others where
  nested := by
    intro front next rest hothers hnext
    have hwhole : unclosed (tokens ++ front) < limit :=
      h.nested (tokens ++ front) next rest (by simp [hothers]) hnext
    unfold Balanced at hbalanced
    simp only [unclosed, List.countP_append] at hwhole ⊢
    omega
  short := fun token htoken => h.short token (List.mem_append_right tokens htoken)

theorem tail {token : Token} (h : Roomy limit (token :: others))
    (hplain : isPlain token.kind = true) : Roomy limit others := by
  have hwhole : Roomy limit ([token] ++ others) := h
  exact hwhole.rest (balanced_singleton hplain)

/-- What stands behind a balanced beginning and a plain token has the room that the whole has. -/
theorem behind {token : Token} (h : Roomy limit (tokens ++ token :: others))
    (hbalanced : Balanced tokens) (hplain : isPlain token.kind = true) : Roomy limit others :=
  (h.rest hbalanced).tail hplain

/-- What opens an operand is a token other than a closing parenthesis. -/
theorem exists_opener (h : startsWith openers tokens = true) :
    ∃ first rest, tokens = first :: rest ∧ first.kind ≠ .rparen := by
  cases tokens with
  | nil => cases h
  | cons first rest =>
      refine ⟨first, rest, rfl, fun hkind => ?_⟩
      simp [startsWith, openers, hkind] at h

/-- There is room for at least one level where an operand is opened. -/
theorem pos (h : Roomy limit tokens) (hstart : startsWith openers tokens = true) : 0 < limit := by
  obtain ⟨first, rest, rfl, hfirst⟩ := exists_opener hstart
  exact h.nested [] first rest rfl hfirst

/-- Where there is room for a phrase in parentheses there is a level left for it. -/
theorem inside {opening : Token} (h : Roomy (limit + 1) (opening :: tokens))
    (hopening : opening.kind = .lparen) (hstart : startsWith openers tokens = true) :
    ∃ level, limit = level + 1 ∧ Roomy limit tokens := by
  obtain ⟨first, rest, rfl, hfirst⟩ := exists_opener hstart
  have hcount : ∀ front next back, first :: rest = front ++ next :: back → next.kind ≠ .rparen →
      front.countP (isKind .lparen) + 1 - front.countP (isKind .rparen) < limit + 1 := by
    intro front next back htokens hnext
    simpa [unclosed, isKind, hopening] using
      h.nested (opening :: front) next back (by simp [htokens]) hnext
  have hpos : 0 < limit := by simpa using hcount [] first rest rfl hfirst
  refine ⟨limit - 1, by omega, ?_, fun token htoken => h.short token (.tail opening htoken)⟩
  intro front next back htokens hnext
  have hpart := hcount front next back htokens hnext
  unfold unclosed
  omega

/-- The empty list needs no room. -/
theorem nil : Roomy limit [] where
  nested := by simp
  short := nofun

/-- A single token needs room for one level. -/
theorem singleton {token : Token} (hpos : 0 < limit) (hshort : ¬ Overlong token) :
    Roomy limit [token] where
  nested := by
    intro front next rest htokens _
    obtain ⟨rfl, -⟩ | ⟨-, hnone⟩ := List.append_eq_singleton_iff.mp htokens.symm
    · exact hpos
    · cases hnone
  short := List.forall_mem_singleton.mpr hshort

/-- Two lists have room in a row if the first of them is balanced. -/
theorem append (h : Roomy limit tokens) (hbalanced : Balanced tokens)
    (hothers : Roomy limit others) : Roomy limit (tokens ++ others) where
  nested := by
    intro front next rest hwhole hnext
    rcases Nat.lt_or_ge front.length tokens.length with hshort | hlong
    · have hfront : front ++ [next] <+: tokens ++ others := ⟨rest, by simp [hwhole]⟩
      obtain ⟨back, hback⟩ := List.prefix_of_prefix_length_le hfront
        (List.prefix_append tokens others) (by simpa using Nat.succ_le_of_lt hshort)
      exact h.nested front next back (by simp [← hback]) hnext
    · obtain ⟨back, rfl⟩ := List.prefix_of_prefix_length_le (List.prefix_append tokens others)
        ⟨next :: rest, hwhole.symm⟩ hlong
      rw [List.append_assoc, List.append_cancel_left_eq] at hwhole
      have hpart := hothers.nested back next rest hwhole hnext
      unfold Balanced at hbalanced
      simp only [unclosed, List.countP_append] at hpart ⊢
      omega
  short := List.forall_mem_append.mpr ⟨h.short, hothers.short⟩

/-- Parentheses around a list take one level more. -/
theorem enclose {opening closing : Token} (h : Roomy limit tokens) (hopening : opening.kind = .lparen)
    (hclosing : closing.kind = .rparen) : Roomy (limit + 1) (opening :: (tokens ++ [closing])) where
  nested := by
    intro front next rest hwhole hnext
    cases front with
    | nil => exact Nat.succ_pos limit
    | cons first front =>
        rw [List.cons_append] at hwhole
        obtain ⟨rfl, hinner⟩ := List.cons.inj hwhole
        rcases List.eq_nil_or_concat' rest with rfl | ⟨rest, last, rfl⟩
        · obtain ⟨-, rfl⟩ := List.append_singleton_inj.mp hinner
          exact absurd hclosing hnext
        · have htokens : tokens = front ++ next :: rest := by
            rw [← List.cons_append, ← List.append_assoc] at hinner
            exact (List.append_singleton_inj.mp hinner).1
          have hpart := h.nested front next rest htokens hnext
          simp [unclosed, isKind, hopening] at hpart ⊢
          omega
  short := by
    have hfirst : ¬ Overlong opening := not_overlong (by simp [hopening])
    have hlast : ¬ Overlong closing := not_overlong (by simp [hclosing])
    exact List.forall_mem_cons.mpr
      ⟨hfirst, List.forall_mem_append.mpr ⟨h.short, List.forall_mem_singleton.mpr hlast⟩⟩

end Roomy

end Grammar

end DiceLang
