import DiceLang.Proofs.Tree.Sound

/-!
# Reading expressions is complete

Tokens that spell a tree are read as that tree, provided that what follows them does not go on with
the phrase.  The tokens that go on with a phrase grow in number from level to level:
`afterCommand`, `afterProduct` and so on list them.

A phrase that is read in one go is covered by `ReadsAs`.  Chains and arguments are read by loops;
there `ChainsAs` and `ArgumentsAs` say that the loop gets to the end of the phrase and goes on from
there, which is what carries over to a longer phrase.  `Spells.complete` is the induction over the
rules of the grammar; the lemmas before it are its cases.
-/

namespace DiceLang

namespace Grammar

/-- What would go on with a command. -/
def afterCommand : List Kind := [.identifier, .number, .lparen]

/-- What would go on with a product. -/
def afterProduct : List Kind := [.star, .slash] ++ afterCommand

/-- What would go on with a sum. -/
def afterSum : List Kind := [.plus, .minus] ++ afterProduct

/-- What would go on with a relation. -/
def afterRelation : List Kind := [.lt, .le, .gt, .ge] ++ afterSum

/-- What would go on with an expression. -/
def afterExpression : List Kind := [.eq, .ne] ++ afterRelation

/-- A reader, given how deeply parentheses may be nested, reads some tokens as a tree unless what
follows them goes on. -/
def ReadsAs (reader : Nat → Reader Tree) (more : List Kind) (taken : List Token) (tree : Tree) :
    Prop :=
  ∀ (n : Nat) (tokens rest : List Token), Roomy (n + 1) taken → tokens = taken ++ rest →
    startsWith more rest = false →
    ∃ reading : Reading Tree tokens, reader n tokens = .ok reading ∧
      reading.value.erase = tree ∧ reading.rest = rest

/-- A reader of chains gets as far as some tokens, of which it makes a tree, and goes on from
there. -/
def ChainsAs (reader operand : Nat → Reader Tree) (pick : Token → Option Arithmetic)
    (more : List Kind) (taken : List Token) (tree : Tree) : Prop :=
  ∀ (n : Nat) (tokens rest : List Token), Roomy (n + 1) taken → tokens = taken ++ rest →
    startsWith more rest = false →
    ∃ left : Reading Tree tokens, reader n tokens = chain (operand n) pick left ∧
      left.value.erase = tree ∧ left.rest = rest

variable {reader operand : Nat → Reader Tree} {pick : Token → Option Arithmetic}
  {more : List Kind} {taken front back : List Token} {tree lhs rhs : Tree}

/-- A chain grows by an operator and an operand. -/
theorem ChainsAs.grow {level : Tree → Phrase} (hfront : Spells front (level lhs))
    (hchain : ChainsAs reader operand pick more front lhs) {sign : Token} {op : Arithmetic}
    (hpick : pick sign = some op) (hplain : isPlain sign.kind = true)
    (hmore : sign.kind ∉ more) (hback : ReadsAs operand more back rhs) :
    ChainsAs reader operand pick more (front ++ sign :: back) (.arithmetic op lhs rhs none) := by
  intro n tokens rest hroomy htokens hstop
  have hsplit : tokens = front ++ sign :: (back ++ rest) := by simpa using htokens
  obtain ⟨left, hleft, rfl, hrest⟩ :=
    hchain n tokens _ hroomy.front hsplit (startsWith_cons.mpr hmore)
  obtain ⟨sign', htake, hop, hbehind⟩ := take?_of_pick hrest hpick
  obtain ⟨right, hright, rfl, hend⟩ :=
    hback n sign'.rest rest (hroomy.behind hfront.balanced hplain) hbehind hstop
  refine ⟨left.andThen (sign'.andThen (right.as (Tree.arithmetic sign'.value left.value
    right.value (joinSpans left.value.span? right.value.span?)))), ?_, ?_, hend⟩
  · rw [hleft, chain]
    simp only [htake, hright]
    rfl
  · simp [Tree.erase, hop]

/-- A chain ends where no operator follows. -/
theorem ChainsAs.reads {most : List Kind}
    (hchain : ChainsAs reader operand pick more taken tree)
    (hpick : ∀ token op, pick token = some op → token.kind ∈ most) (hsubset : more ⊆ most) :
    ReadsAs reader most taken tree := by
  intro n tokens rest hroomy htokens hstop
  obtain ⟨left, hleft, hvalue, rfl⟩ :=
    hchain n tokens rest hroomy htokens (startsWith_mono hsubset hstop)
  refine ⟨left, ?_, hvalue, rfl⟩
  rw [hleft, chain, take?_eq_none hpick hstop]

/-- A chain starts with its first operand. -/
theorem ReadsAs.chains (hoperand : ReadsAs operand more taken tree)
    (hreader : ∀ n tokens, reader n tokens =
      operand n tokens >>= fun left => chain (operand n) pick left) :
    ChainsAs reader operand pick more taken tree := by
  intro n tokens rest hroomy htokens hstop
  obtain ⟨left, hleft, hvalue, hrest⟩ := hoperand n tokens rest hroomy htokens hstop
  refine ⟨left, ?_, hvalue, hrest⟩
  rw [hreader, hleft]
  rfl

/-- A reader reads the same where more may not follow. -/
theorem ReadsAs.mono {most : List Kind} (h : ReadsAs reader more taken tree)
    (hsubset : more ⊆ most) : ReadsAs reader most taken tree := by
  intro n tokens rest hroomy htokens hstop
  exact h n tokens rest hroomy htokens (startsWith_mono hsubset hstop)

/-- One operand, with no operator behind it. -/
theorem ReadsAs.comparison_one {pick : Token → Option Comparison} {most : List Kind}
    (h : ReadsAs operand more taken tree)
    (hpick : ∀ token op, pick token = some op → token.kind ∈ most) (hsubset : more ⊆ most) :
    ReadsAs (fun n => comparison (operand n) pick) most taken tree := by
  intro n tokens rest hroomy htokens hstop
  obtain ⟨left, hleft, hvalue, rfl⟩ := h.mono hsubset n tokens rest hroomy htokens hstop
  refine ⟨left, ?_, hvalue, rfl⟩
  simp only [comparison, hleft, ok_bind, take?_eq_none hpick hstop]
  rfl

/-- Two operands with an operator between them. -/
theorem ReadsAs.comparison_two {pick : Token → Option Comparison} {most : List Kind}
    {level : Tree → Phrase} (hfront : Spells front (level lhs))
    (hlhs : ReadsAs operand more front lhs) {sign : Token} {op : Comparison}
    (hpick : pick sign = some op) (hplain : isPlain sign.kind = true)
    (hmore : sign.kind ∉ more) (hrhs : ReadsAs operand more back rhs) (hsubset : more ⊆ most) :
    ReadsAs (fun n => comparison (operand n) pick) most (front ++ sign :: back)
      (.comparison op lhs rhs none) := by
  intro n tokens rest hroomy htokens hstop
  have hsplit : tokens = front ++ sign :: (back ++ rest) := by simpa using htokens
  obtain ⟨left, hleft, rfl, hrest⟩ :=
    hlhs n tokens _ hroomy.front hsplit (startsWith_cons.mpr hmore)
  obtain ⟨sign', htake, hop, hbehind⟩ := take?_of_pick hrest hpick
  obtain ⟨right, hright, rfl, hend⟩ := hrhs.mono hsubset n sign'.rest rest
    (hroomy.behind hfront.balanced hplain) hbehind hstop
  refine ⟨left.andThen (sign'.andThen (right.as (Tree.comparison sign'.value left.value
    right.value (joinSpans left.value.span? right.value.span?)))), ?_, ?_, hend⟩
  · simp only [comparison, hleft, ok_bind, htake, hright]
    rfl
  · simp [Tree.erase, hop]

/-- A number in range is read as a primary. -/
theorem primary_number {token : Token} (hkind : token.kind = .number)
    (hrange : Nat.ofDigitChars 10 token.lexeme.toList 0 < Nat.pow 2 127) :
    ReadsAs (fun n => primary (expression n)) [] [token]
      (.integer (Nat.ofDigitChars 10 token.lexeme.toList 0) none) := by
  intro n tokens rest hroomy htokens _
  have hsplit : tokens = token :: rest := htokens
  have hparen : startsWith [.lparen] tokens = false := by
    rw [hsplit]
    exact startsWith_cons.mpr (by simp [hkind])
  obtain ⟨number, hnumber, rfl, hrest⟩ := expect_of_kind .number hsplit hkind
  have hshort : number.value.lexeme.toList.length ≤ Text.digitLimit :=
    Nat.le_of_not_lt fun hlong => hroomy.short number.value List.mem_cons_self ⟨hkind, hlong⟩
  have hvalue : literal number.value = .ok (Nat.ofDigitChars 10 number.value.lexeme.toList 0) := by
    unfold literal Text.readDigits?
    rw [if_pos hshort]
    exact if_pos hrange
  refine ⟨number.as (.integer _ number.value.span), ?_, rfl, hrest⟩
  simp only [primary, take?_ofKind_eq_none hparen, hnumber, ok_bind, hvalue]
  rfl

theorem primary_group {opening closing : Token} {inner : List Token}
    (hopening : opening.kind = .lparen) (hspells : Spells inner (.expression tree))
    (hinner : ReadsAs (fun n => equality (expression n)) afterExpression inner tree)
    (hclosing : closing.kind = .rparen) :
    ReadsAs (fun n => primary (expression n)) [] (opening :: (inner ++ [closing])) tree := by
  intro n tokens rest hroomy htokens _
  obtain ⟨m, rfl, hinside⟩ := hroomy.inside hopening (hspells.startsWith _)
  have hsplit : tokens = opening :: (inner ++ closing :: rest) := by simpa using htokens
  obtain ⟨first, hfirst, _, hrest⟩ := take?_of_pick hsplit (ofKind_of_kind hopening)
  have hstop : startsWith afterExpression (closing :: rest) = false :=
    startsWith_cons.mpr (by rw [hclosing]; decide)
  obtain ⟨middle, hmiddle, hvalue, hbehind⟩ :=
    hinner m first.rest _ hinside.front hrest hstop
  obtain ⟨last, hlast, _, hend⟩ := expect_of_kind .closing hbehind hclosing
  refine ⟨first.andThen (middle.andThen (last.as middle.value)), ?_, hvalue, hend⟩
  simp only [primary, hfirst, expression, hmiddle, ok_bind, hlast]
  rfl

/-- A reader of arguments gets as far as some tokens, of which it makes trees, and goes on from
there. -/
def ArgumentsAs (taken : List Token) (trees : List Tree) : Prop :=
  ∀ (n : Nat) (tokens rest : List Token), Roomy (n + 1) taken → tokens = taken ++ rest →
    startsWith afterExpression rest = false →
    ∃ soFar : Reading (List Tree) tokens,
      (equality (expression n) tokens >>= fun first =>
        moreArguments (equality (expression n)) (first.as [first.value])) =
          moreArguments (equality (expression n)) soFar ∧
      soFar.value.map Tree.erase = trees ∧ soFar.rest = rest

/-- One expression is a list of arguments. -/
theorem ReadsAs.argument
    (h : ReadsAs (fun n => equality (expression n)) afterExpression taken tree) :
    ArgumentsAs taken [tree] := by
  intro n tokens rest hroomy htokens hstop
  obtain ⟨first, hfirst, rfl, hrest⟩ := h n tokens rest hroomy htokens hstop
  refine ⟨first.as [first.value], ?_, rfl, hrest⟩
  simp only [hfirst, ok_bind]

/-- A list of arguments may go on with a comma and a further one. -/
theorem ArgumentsAs.further {comma : Token} {trees : List Tree}
    (hspells : Spells front (.arguments trees)) (hfront : ArgumentsAs front trees)
    (hcomma : comma.kind = .comma)
    (hback : ReadsAs (fun n => equality (expression n)) afterExpression back tree) :
    ArgumentsAs (front ++ comma :: back) (trees ++ [tree]) := by
  intro n tokens rest hroomy htokens hstop
  have hsplit : tokens = front ++ comma :: (back ++ rest) := by simpa using htokens
  have hmore : startsWith afterExpression (comma :: (back ++ rest)) = false :=
    startsWith_cons.mpr (by rw [hcomma]; decide)
  obtain ⟨soFar, hsoFar, rfl, hrest⟩ := hfront n tokens _ hroomy.front hsplit hmore
  obtain ⟨comma', htake, _, hbehind⟩ := take?_of_pick hrest (ofKind_of_kind hcomma)
  have hroomy' : Roomy (n + 1) back := hroomy.behind hspells.balanced (by simp [hcomma, isPlain])
  obtain ⟨last, hlast, rfl, hend⟩ := hback n comma'.rest rest hroomy' hbehind hstop
  refine ⟨soFar.andThen (comma'.andThen (last.as (soFar.value ++ [last.value]))), ?_, ?_, hend⟩
  · rw [hsoFar, moreArguments]
    simp only [htake, hlast]
    rfl
  · simp

/-- Behind a list of arguments the closing parenthesis is read. -/
theorem arguments_of_some {opening closing : Token} {inner : List Token} {trees : List Tree}
    {n : Nat} {tokens rest : List Token} (htokens : tokens = inner ++ closing :: rest)
    (hopening : opening.kind = .lparen) (hroomy : Roomy (n + 1) (opening :: (inner ++ [closing])))
    (hspells : Spells inner (.arguments trees)) (hinner : ArgumentsAs inner trees)
    (hclosing : closing.kind = .rparen) :
    ∃ reading : Reading (List Tree) tokens, arguments (expression n) tokens = .ok reading ∧
      reading.value.map Tree.erase = trees ∧ reading.rest = rest := by
  obtain ⟨m, rfl, hinside⟩ := hroomy.inside hopening (hspells.startsWith _)
  have hstop : startsWith (.comma :: afterExpression) (closing :: rest) = false :=
    startsWith_cons.mpr (by rw [hclosing]; decide)
  have hsome : startsWith [.rparen] tokens = false := by
    rw [htokens]
    exact startsWith_of_disjoint (by decide) (hspells.startsWith _)
  obtain ⟨all, hall, hvalue, hrest⟩ :=
    hinner m tokens _ hinside.front htokens (startsWith_mono (by simp) hstop)
  have hcomma : startsWith [.comma] all.rest = false := by
    rw [hrest]
    exact startsWith_mono (by simp) hstop
  rw [moreArguments, take?_ofKind_eq_none hcomma] at hall
  obtain ⟨first, hfirst, hmore⟩ := bind_eq_ok hall
  obtain ⟨last, hlast, _, hend⟩ := expect_of_kind .commaOrClosing hrest hclosing
  refine ⟨all.andThen (last.as all.value), ?_, hvalue, hend⟩
  simp only [arguments, take?_ofKind_eq_none hsome, expression, hfirst, ok_bind, hmore, hlast]
  rfl

/-- A closing parenthesis that stands at once leaves no arguments. -/
theorem arguments_of_none {closing : Token} {n : Nat} {tokens rest : List Token}
    (htokens : tokens = closing :: rest) (hclosing : closing.kind = .rparen) :
    ∃ reading : Reading (List Tree) tokens, arguments (expression n) tokens = .ok reading ∧
      reading.value.map Tree.erase = [] ∧ reading.rest = rest := by
  obtain ⟨last, hlast, _, hrest⟩ := take?_of_pick htokens (ofKind_of_kind hclosing)
  refine ⟨last.as [], ?_, rfl, hrest⟩
  simp only [arguments, hlast]

/-- A name before a parenthesis takes what stands between it and the closing one. -/
theorem command_call {name opening closing : Token} {inner : List Token} {trees : List Tree}
    (hname : name.kind = .identifier) (hopening : opening.kind = .lparen)
    (hnode : ∀ {args : List Tree} {span : Span}, args.map Tree.erase = trees →
      (callNode name.lexeme args span).erase = tree)
    (hinner : ∀ {n : Nat} {tokens rest : List Token}, tokens = inner ++ closing :: rest →
      Roomy (n + 1) (opening :: (inner ++ [closing])) → ∃ reading : Reading (List Tree) tokens,
        arguments (expression n) tokens = .ok reading ∧
        reading.value.map Tree.erase = trees ∧ reading.rest = rest) :
    ReadsAs (fun n => command (expression n)) afterCommand
      (name :: opening :: (inner ++ [closing])) tree := by
  intro n tokens rest hroomy htokens _
  have hsplit : tokens = name :: opening :: (inner ++ closing :: rest) := by simpa using htokens
  have hplain : isPlain name.kind = true := by simp [hname, isPlain]
  obtain ⟨name', htake, rfl, hrest⟩ := take?_of_pick hsplit (ofKind_of_kind hname)
  obtain ⟨opening', hopening', _, hrest'⟩ := take?_of_pick hrest (ofKind_of_kind hopening)
  obtain ⟨args, hargs, hvalue, hend⟩ := hinner hrest' (hroomy.tail hplain)
  refine ⟨(name'.andThen (opening'.andThen args)).as (callNode name'.value.lexeme args.value
    (name'.andThen (opening'.andThen args)).span), ?_, hnode hvalue, hend⟩
  simp only [command, htake, namedCommand, hopening', hargs, ok_bind]
  rfl

/-- A name before a number is read as a prefix command. -/
theorem command_prefixed {name number : Token} (hname : name.kind = .identifier)
    (hnumber : number.kind = .number)
    (hrhs : ReadsAs (fun n => primary (expression n)) [] [number] rhs) :
    ReadsAs (fun n => command (expression n)) afterCommand [name, number]
      (.prefixed name.lexeme rhs none) := by
  intro n tokens rest hroomy htokens _
  obtain ⟨name', htake, rfl, hrest⟩ := take?_of_pick htokens (ofKind_of_kind hname)
  have hsplit : name'.rest = number :: rest := hrest
  have hparen : startsWith [.lparen] name'.rest = false := by
    rw [hsplit]
    exact startsWith_cons.mpr (by simp [hnumber])
  have hstart : startsWith [.number] name'.rest = true := by
    simp [hsplit, startsWith, hnumber]
  have hroomy' : Roomy (n + 1) [number] := hroomy.tail (by simp [hname, isPlain])
  obtain ⟨right, hright, hvalue, hend⟩ := hrhs n name'.rest rest hroomy' hsplit (by cases rest <;> rfl)
  refine ⟨(name'.andThen right).as (.prefixed name'.value.lexeme right.value
    (name'.andThen right).span), ?_, ?_, hend⟩
  · simp only [command, htake, namedCommand, take?_ofKind_eq_none hparen, hstart, if_true, hright,
      ok_bind]
    rfl
  · simp [Tree.erase, hvalue]

/-- A name by itself is read as a nullary command. -/
theorem command_nullary {name : Token} (hname : name.kind = .identifier) :
    ReadsAs (fun n => command (expression n)) afterCommand [name] (.nullary name.lexeme none) := by
  intro n tokens rest _ htokens hstop
  have hsplit : tokens = name :: rest := htokens
  obtain ⟨name', htake, rfl, hrest⟩ := take?_of_pick hsplit (ofKind_of_kind hname)
  have hparen : startsWith [.lparen] name'.rest = false := by
    rw [hrest]
    exact startsWith_mono (by simp [afterCommand]) hstop
  have hnumber : startsWith [.number] name'.rest = false := by
    rw [hrest]
    exact startsWith_mono (by simp [afterCommand]) hstop
  refine ⟨name'.as (.nullary name'.value.lexeme name'.value.span), ?_, rfl, hrest⟩
  simp only [command, htake, namedCommand, take?_ofKind_eq_none hparen, hnumber]
  rfl

/-- What a primary starts with. -/
theorem spells_primary_startsWith (h : Spells taken (.primary tree)) (rest : List Token) :
    startsWith [.number, .lparen] (taken ++ rest) = true := by
  cases h with
  | number hkind => simp [startsWith, hkind]
  | group hopening => simp [startsWith, hopening]

/-- A command that starts with a primary goes on from there. -/
theorem command_primary (hspells : Spells taken (.primary tree))
    (h : ReadsAs (fun n => primary (expression n)) [] taken tree) {n : Nat}
    {tokens rest : List Token} (hroomy : Roomy (n + 1) taken) (htokens : tokens = taken ++ rest) :
    ∃ operand : Reading Tree tokens,
      command (expression n) tokens = operandCommand (expression n) operand ∧
      operand.value.erase = tree ∧ operand.rest = rest := by
  have hname : startsWith [.identifier] tokens = false := by
    rw [htokens]
    exact startsWith_of_disjoint (by decide) (spells_primary_startsWith hspells rest)
  obtain ⟨first, hfirst, hvalue, hrest⟩ := h n tokens rest hroomy htokens (by cases rest <;> rfl)
  refine ⟨first, ?_, hvalue, hrest⟩
  simp only [command, take?_ofKind_eq_none hname, hfirst, ok_bind]

/-- A primary without a name behind it is read as itself. -/
theorem command_operand (hspells : Spells taken (.primary tree))
    (h : ReadsAs (fun n => primary (expression n)) [] taken tree) :
    ReadsAs (fun n => command (expression n)) afterCommand taken tree := by
  intro n tokens rest hroomy htokens hstop
  obtain ⟨operand, hoperand, hvalue, rfl⟩ := command_primary hspells h hroomy htokens
  have hname : startsWith [.identifier] operand.rest = false :=
    startsWith_mono (by simp [afterCommand]) hstop
  refine ⟨operand, ?_, hvalue, rfl⟩
  simp only [hoperand, operandCommand, take?_ofKind_eq_none hname]
  rfl

/-- A name behind a primary is read as a postfix command. -/
theorem command_postfixed {name : Token} (hspells : Spells front (.primary lhs))
    (hlhs : ReadsAs (fun n => primary (expression n)) [] front lhs)
    (hname : name.kind = .identifier) :
    ReadsAs (fun n => command (expression n)) afterCommand (front ++ [name])
      (.postfixed name.lexeme lhs none) := by
  intro n tokens rest hroomy htokens hstop
  have hsplit : tokens = front ++ name :: rest := by simpa using htokens
  obtain ⟨left, hleft, hvalue, hrest⟩ := command_primary hspells hlhs hroomy.front hsplit
  obtain ⟨name', htake, rfl, rfl⟩ := take?_of_pick hrest (ofKind_of_kind hname)
  have hoperand : startsWith [.number, .lparen] name'.rest = false :=
    startsWith_mono (by simp [afterCommand]) hstop
  refine ⟨(left.andThen name').as (.postfixed name'.value.lexeme left.value
    (left.andThen name').span), ?_, ?_, rfl⟩
  · simp only [hleft, operandCommand, htake, hoperand]
    rfl
  · simp [Tree.erase, hvalue]

/-- A name between two primaries is read as an infix command. -/
theorem command_infixed {name : Token} (hleft : Spells front (.primary lhs))
    (hlhs : ReadsAs (fun n => primary (expression n)) [] front lhs)
    (hname : name.kind = .identifier) (hright : Spells back (.primary rhs))
    (hrhs : ReadsAs (fun n => primary (expression n)) [] back rhs) :
    ReadsAs (fun n => command (expression n)) afterCommand (front ++ name :: back)
      (.infixed name.lexeme lhs rhs none) := by
  intro n tokens rest hroomy htokens _
  have hsplit : tokens = front ++ name :: (back ++ rest) := by simpa using htokens
  obtain ⟨left, hoperand, hvalue, hrest⟩ := command_primary hleft hlhs hroomy.front hsplit
  obtain ⟨name', htake, rfl, hbehind⟩ := take?_of_pick hrest (ofKind_of_kind hname)
  have hstart : startsWith [.number, .lparen] name'.rest = true := by
    rw [hbehind]
    exact spells_primary_startsWith hright rest
  have hroomy' : Roomy (n + 1) back := hroomy.behind hleft.balanced (by simp [hname, isPlain])
  obtain ⟨right, hprimary, hvalue', hend⟩ :=
    hrhs n name'.rest rest hroomy' hbehind (by cases rest <;> rfl)
  refine ⟨(left.andThen (name'.andThen right)).as (.infixed name'.value.lexeme left.value
    right.value (left.andThen (name'.andThen right)).span), ?_, ?_, hend⟩
  · simp only [hoperand, operandCommand, htake, hstart, if_true, hprimary, ok_bind]
    rfl
  · simp [Tree.erase, hvalue, hvalue']

/-- What completeness says at each level of the grammar.  Chains and arguments are read by loops,
so there it speaks of where the loop has got to. -/
def Complete (taken : List Token) : Phrase → Prop
  | .primary tree => ReadsAs (fun n => primary (expression n)) [] taken tree
  | .command tree => ReadsAs (fun n => command (expression n)) afterCommand taken tree
  | .product tree =>
    ChainsAs (fun n => product (expression n)) (fun n => command (expression n))
      productOperator? afterCommand taken tree
  | .sum tree =>
    ChainsAs (fun n => sum (expression n)) (fun n => product (expression n))
      sumOperator? afterProduct taken tree
  | .relation tree => ReadsAs (fun n => relation (expression n)) afterRelation taken tree
  | .expression tree => ReadsAs (fun n => equality (expression n)) afterExpression taken tree
  | .arguments trees => ArgumentsAs taken trees

/-- A product is over where neither another factor nor a command goes on. -/
theorem Complete.product (h : Complete taken (.product tree)) :
    ReadsAs (fun n => Grammar.product (expression n)) afterProduct taken tree := by
  refine ChainsAs.reads h ?_ (List.subset_append_right _ _)
  intro token op hop
  obtain ⟨hkind, rfl | rfl⟩ := productOperator?_eq_some.mp hop <;>
    simp [hkind, Arithmetic.sign, afterProduct]

/-- A sum is over where neither another summand nor a product goes on. -/
theorem Complete.sum (h : Complete taken (.sum tree)) :
    ReadsAs (fun n => Grammar.sum (expression n)) afterSum taken tree := by
  refine ChainsAs.reads h ?_ (List.subset_append_right _ _)
  intro token op hop
  obtain ⟨hkind, rfl | rfl⟩ := sumOperator?_eq_some.mp hop <;>
    simp [hkind, Arithmetic.sign, afterSum]

/-- **Completeness.**  Tokens that spell a phrase are read as that phrase. -/
theorem Spells.complete {phrase : Phrase} (h : Spells taken phrase) : Complete taken phrase := by
  induction h with
  | number hkind hrange => exact primary_number hkind hrange
  | group hopening hinner hclosing ih => exact primary_group hopening hinner ih hclosing
  | @emptyCall name opening closing hname hopening hclosing =>
      have hnode : ∀ {args : List Tree} {span : Span}, args.map Tree.erase = [] →
          (callNode name.lexeme args span).erase = .call name.lexeme [] none := by
        intro args span hargs
        rw [List.map_eq_nil_iff] at hargs
        simp [hargs, callNode, Tree.erase, Tree.eraseAll]
      show ReadsAs _ afterCommand (name :: opening :: ([] ++ [closing])) _
      exact command_call hname hopening hnode
        (fun htokens _ => arguments_of_none htokens hclosing)
  | @singleCall name opening closing inner arg hname hopening hinner hclosing ih =>
      have hnode : ∀ {args : List Tree} {span : Span}, args.map Tree.erase = [arg] →
          (callNode name.lexeme args span).erase = .prefixed name.lexeme arg none := by
        intro args span hargs
        obtain ⟨arg', rfl, rfl⟩ := List.map_eq_singleton_iff.mp hargs
        simp [callNode, Tree.erase]
      exact command_call hname hopening hnode
        (fun htokens hroomy => arguments_of_some htokens hopening hroomy hinner ih hclosing)
  | @call name opening closing inner trees hname hopening hinner hclosing hmany ih =>
      have hnode : ∀ {args : List Tree} {span : Span}, args.map Tree.erase = trees →
          (callNode name.lexeme args span).erase = .call name.lexeme trees none := by
        intro args span hargs
        subst hargs
        rcases args with _ | ⟨first, _ | ⟨second, others⟩⟩
        · simp at hmany
        · simp at hmany
        · simp [callNode, Tree.erase, Tree.eraseAll_eq_map]
      exact command_call hname hopening hnode
        (fun htokens hroomy => arguments_of_some htokens hopening hroomy hinner ih hclosing)
  | prefixed hname hnumber _ ih => exact command_prefixed hname hnumber ih
  | nullary hname => exact command_nullary hname
  | infixed hlhs hname hrhs ihl ihr => exact command_infixed hlhs ihl hname hrhs ihr
  | postfixed hlhs hname ih => exact command_postfixed hlhs ih hname
  | operand hoperand ih => exact command_operand hoperand ih
  | factor _ ih => exact ReadsAs.chains ih (fun _ _ => rfl)
  | @multiplied sign op _ _ _ _ hlhs hsign hop _ ihl ihr =>
      -- The sign ends the command before it: a command would go on with none of these.
      have hmore : sign.kind ∉ afterCommand := by
        rcases hop with rfl | rfl <;> rw [hsign] <;> decide
      exact ChainsAs.grow hlhs ihl (productOperator?_eq_some.mpr ⟨hsign, hop⟩)
        (hsign ▸ isPlain_arithmetic op) hmore ihr
  | summand _ ih => exact ReadsAs.chains (Complete.product ih) (fun _ _ => rfl)
  | @added sign op _ _ _ _ hlhs hsign hop _ ihl ihr =>
      have hmore : sign.kind ∉ afterProduct := by
        rcases hop with rfl | rfl <;> rw [hsign] <;> decide
      exact ChainsAs.grow hlhs ihl (sumOperator?_eq_some.mpr ⟨hsign, hop⟩)
        (hsign ▸ isPlain_arithmetic op) hmore (Complete.product ihr)
  | unordered _ ih =>
      refine ReadsAs.comparison_one (Complete.sum ih) ?_ (List.subset_append_right _ _)
      intro token op hop
      obtain ⟨hkind, rfl | rfl | rfl | rfl⟩ := orderOperator?_eq_some.mp hop <;>
        simp [hkind, Comparison.sign, afterRelation]
  | @ordered sign op _ _ _ _ hlhs hsign hop _ ihl ihr =>
      have hmore : sign.kind ∉ afterSum := by
        rcases hop with rfl | rfl | rfl | rfl <;> rw [hsign] <;> decide
      exact ReadsAs.comparison_two hlhs (Complete.sum ihl)
        (orderOperator?_eq_some.mpr ⟨hsign, hop⟩) (hsign ▸ isPlain_comparison op) hmore
        (Complete.sum ihr) (List.subset_append_right _ _)
  | unequated _ ih =>
      refine ReadsAs.comparison_one ih ?_ (List.subset_append_right _ _)
      intro token op hop
      obtain ⟨hkind, rfl | rfl⟩ := equalityOperator?_eq_some.mp hop <;>
        simp [hkind, Comparison.sign, afterExpression]
  | @equated sign op _ _ _ _ hlhs hsign hop _ ihl ihr =>
      have hmore : sign.kind ∉ afterRelation := by
        rcases hop with rfl | rfl <;> rw [hsign] <;> decide
      exact ReadsAs.comparison_two hlhs ihl (equalityOperator?_eq_some.mpr ⟨hsign, hop⟩)
        (hsign ▸ isPlain_comparison op) hmore ihr (List.subset_append_right _ _)
  | argument _ ih => exact ReadsAs.argument ih
  | further hfront hcomma _ ihl ihr => exact ArgumentsAs.further hfront ihl hcomma ihr

end Grammar

end DiceLang
