import DiceLang.Proofs.Grammar
import DiceLang.Proofs.Reading
import DiceLang.Proofs.Tree.Laid

/-!
# Reading expressions is sound

Whatever a reader makes a tree of, the tokens it has taken spell that tree, and the tree stands over
them: each node has a span, and the spans of its children lie inside, in the order in which they were
read.  The tokens also leave room for as many parentheses as the reader was given, and none of their
numerals is too long, so that they can be read once more by themselves.  `ReadFrom` puts all this
together, since one walk over the readers shows all of it.

Each level is given a reader for what stands in parentheses, so `expression_sites` follows by
induction on the nesting.  The loops of the reader are handled once for all levels that use them:
`chain_sited` for operators that associate to the left and `comparison_sites` for those that do not
associate.
-/

namespace DiceLang

namespace Grammar

/-- The operators of products are those for multiplication and division, told by their signs. -/
theorem productOperator?_eq_some {token : Token} {op : Arithmetic} :
    productOperator? token = some op ↔ token.kind = op.sign ∧ (op = .mul ∨ op = .div) := by
  unfold productOperator?
  cases hkind : token.kind <;> cases op <;> simp [Arithmetic.sign]

/-- The operators of sums are those for addition and subtraction. -/
theorem sumOperator?_eq_some {token : Token} {op : Arithmetic} :
    sumOperator? token = some op ↔ token.kind = op.sign ∧ (op = .add ∨ op = .sub) := by
  unfold sumOperator?
  cases hkind : token.kind <;> cases op <;> simp [Arithmetic.sign]

/-- The operators that order are those for less and greater, be it or equal. -/
theorem orderOperator?_eq_some {token : Token} {op : Comparison} :
    orderOperator? token = some op ↔
      token.kind = op.sign ∧ (op = .lt ∨ op = .le ∨ op = .gt ∨ op = .ge) := by
  unfold orderOperator?
  cases hkind : token.kind <;> cases op <;> simp [Comparison.sign]

/-- The operators that equate are those for equal and different. -/
theorem equalityOperator?_eq_some {token : Token} {op : Comparison} :
    equalityOperator? token = some op ↔ token.kind = op.sign ∧ (op = .eq ∨ op = .ne) := by
  unfold equalityOperator?
  cases hkind : token.kind <;> cases op <;> simp [Comparison.sign]

/-- The value of a literal is that of its digits, and in range. -/
theorem literal_eq_ok {token : Token} {value : Int} (h : literal token = .ok value) :
    value = Nat.ofDigitChars 10 token.lexeme.toList 0 ∧
      Nat.ofDigitChars 10 token.lexeme.toList 0 < Nat.pow 2 127 := by
  unfold literal Text.readDigits? at h
  split at h
  · cases h
  · next n hn =>
    split at hn
    · cases hn
      split at h
      · next hrange =>
        cases h
        exact ⟨rfl, hrange⟩
      · cases h
    · cases hn

/-- What is a literal is short enough to be converted. -/
theorem literal_short {token : Token} {value : Int} (h : literal token = .ok value) :
    ¬ Overlong token := by
  rintro ⟨-, hlong⟩
  have hnone : Text.readDigits? token.lexeme.toList = none := if_neg (Nat.not_le_of_lt hlong)
  unfold literal at h
  rw [hnone] at h
  cases h

/-- The phrase that a tree stands for at some level, whatever its spans. -/
abbrev erased (level : Tree → Phrase) (tree : Tree) : Phrase := level tree.erase

/-- The phrase that the arguments of a call stand for, whatever their spans. -/
abbrev erasedArguments (trees : List Tree) : Phrase := .arguments (trees.map Tree.erase)

/-- A tree has been read from some tokens at a level of the grammar, with so many parentheses to be
opened. -/
structure ReadFrom (limit : Nat) (level : Tree → Phrase) (taken : List Token) (tree : Tree) :
    Prop where
  spells : Spells taken (erased level tree)
  roomy : Roomy limit taken
  wrapped : Wrapped taken tree

/-- The arguments of a call have been read from some tokens. -/
structure ArgumentsFrom (limit : Nat) (taken : List Token) (trees : List Tree) : Prop where
  spells : Spells taken (erasedArguments trees)
  roomy : Roomy limit taken
  laid : Laid Delimits taken trees

section Phrases

variable {limit : Nat} {level tight loose : Tree → Phrase} {taken front back inner : List Token}
  {tree lhs rhs node : Tree}

/-- What is read from tokens may count as any looser phrase that they spell. -/
theorem ReadFrom.imp (h : ReadFrom limit tight taken tree)
    (himp : ∀ tree, Spells taken (tight tree) → Spells taken (loose tree)) :
    ReadFrom limit loose taken tree :=
  ⟨himp _ h.spells, h.roomy, h.wrapped⟩

/-- A sign between a phrase and another list takes no room. -/
theorem Roomy.between {phrase : Phrase} {sign : Token} (hfront : Roomy limit front)
    (hspells : Spells front phrase) (hsign : isPlain sign.kind = true) (hkind : sign.kind ≠ .number)
    (hback : Roomy limit back) : Roomy limit (front ++ sign :: back) := by
  have hpos : 0 < limit := by
    rw [← List.append_nil front] at hfront
    exact hfront.pos (hspells.startsWith [])
  have hbehind : Roomy limit (sign :: back) :=
    (singleton hpos (not_overlong hkind)).append (balanced_singleton hsign) hback
  exact hfront.append hspells.balanced hbehind

/-- A number is read from its token. -/
theorem readFrom_number {token : Token} {value : Int} (hkind : token.kind = .number)
    (h : literal token = .ok value) :
    ReadFrom (limit + 1) .primary [token] (.integer value token.span) := by
  obtain ⟨rfl, hrange⟩ := literal_eq_ok h
  have hspells := Spells.number hkind hrange
  refine ⟨hspells, .singleton (Nat.succ_pos limit) (literal_short h),
    wrapped_of_command (.operand hspells) ⟨?_, ?_⟩ ?_⟩
  · exact ⟨token.span, rfl, over_singleton token⟩
  · exact ⟨token, rfl, hkind, rfl⟩
  · exact .nil _

/-- What is read between parentheses is read from them as well, one level further out. -/
theorem ReadFrom.group {opening closing : Token} (h : ReadFrom limit .expression inner tree)
    (hopening : opening.kind = .lparen) (hclosing : closing.kind = .rparen) :
    ReadFrom (limit + 1) .primary (opening :: (inner ++ [closing])) tree where
  spells := .group hopening h.spells hclosing
  roomy := h.roomy.enclose hopening hclosing
  wrapped := h.wrapped.group hopening hclosing

/-- A command stands over all that has been read for it. -/
theorem readFrom_command {span : Span} (hspells : Spells taken (.command tree.erase))
    (hroomy : Roomy limit taken) (hspan : tree.span? = some span) (hover : Over taken span)
    (hone : tree.OneToken taken) (hinside : Laid Delimits taken tree.children) :
    ReadFrom limit .command taken tree where
  spells := hspells
  roomy := hroomy
  wrapped := wrapped_of_command hspells ⟨⟨span, hspan, hover⟩, hone⟩ hinside

/-- A call has the span that it is given, whichever node it is. -/
theorem span?_callNode (name : String) (args : List Tree) (span : Span) :
    (callNode name args span).span? = some span := by
  unfold callNode
  split <;> rfl

theorem children_callNode (name : String) (args : List Tree) (span : Span) :
    (callNode name args span).children = args := by
  unfold callNode
  split <;> rfl

/-- A call is never a node over one token. -/
theorem oneToken_callNode (name : String) (args : List Tree) (span : Span) (piece : List Token) :
    (callNode name args span).OneToken piece := by
  unfold callNode
  split <;> trivial

/-- A call with the arguments that its parentheses hold. -/
theorem callNode_spells {name opening closing : Token} {inner : List Token} {args : List Tree}
    {span : Span} (hname : name.kind = .identifier) (hopening : opening.kind = .lparen)
    (hinner : Spells inner (erasedArguments args)) (hclosing : closing.kind = .rparen)
    (hsome : args ≠ []) :
    Spells (name :: opening :: (inner ++ [closing]))
      (.command (callNode name.lexeme args span).erase) := by
  match args with
  | [] => exact absurd rfl hsome
  | [arg] =>
      simpa [callNode, Tree.erase] using Spells.singleCall hname hopening hinner hclosing
  | first :: second :: others =>
      have hmany : 2 ≤ ((first :: second :: others).map Tree.erase).length := by simp
      simpa only [callNode, Tree.erase, Tree.eraseAll_eq_map] using
        Spells.call hname hopening hinner hclosing hmany

/-- A call has been read from its name and its arguments in parentheses, if it has any. -/
theorem readFrom_call {name opening closing : Token} {args : List Tree} {span : Span}
    (hname : name.kind = .identifier) (hopening : opening.kind = .lparen)
    (hclosing : closing.kind = .rparen)
    (hinner : inner = [] ∧ args = [] ∨ args ≠ [] ∧ ArgumentsFrom limit inner args)
    (hover : Over (name :: opening :: (inner ++ [closing])) span) :
    ReadFrom (limit + 1) .command (name :: opening :: (inner ++ [closing]))
      (callNode name.lexeme args span) := by
  have hspells : Spells (name :: opening :: (inner ++ [closing]))
      (.command (callNode name.lexeme args span).erase) := by
    rcases hinner with ⟨rfl, rfl⟩ | ⟨hsome, hargs⟩
    · simpa [callNode, Tree.erase, Tree.eraseAll] using Spells.emptyCall hname hopening hclosing
    · exact callNode_spells hname hopening hargs.spells hclosing hsome
  have hroomy : Roomy limit inner := by
    rcases hinner with ⟨rfl, -⟩ | ⟨-, hargs⟩
    · exact .nil
    · exact hargs.roomy
  have hlaid : Laid Delimits inner args := by
    rcases hinner with ⟨-, rfl⟩ | ⟨-, hargs⟩
    · exact .nil inner
    · exact hargs.laid
  refine readFrom_command hspells ?_ (span?_callNode ..) hover (oneToken_callNode ..) ?_
  · have hfirst : Roomy (limit + 1) [name] :=
      .singleton (Nat.succ_pos limit) (not_overlong (by simp [hname]))
    exact hfirst.append (balanced_singleton (by simp [hname, isPlain]))
      (hroomy.enclose hopening hclosing)
  · rw [children_callNode]
    exact (hlaid.behind [closing]).before [name, opening]

/-- An operator has been read from what its operands have been read from. -/
theorem ReadFrom.operation {sign : Token} (hlhs : ReadFrom limit loose front lhs)
    (hrhs : ReadFrom limit tight back rhs) (hsign : isPlain sign.kind = true)
    (hkind : sign.kind ≠ .number) (hnode : node.isOperation = true)
    (hchildren : node.children = [lhs, rhs]) (hspan : node.span? = joinSpans lhs.span? rhs.span?)
    (hspells : Spells (front ++ sign :: back) (level node.erase))
    (hlevel : ∀ tokens tree, Spells tokens (level tree) → Spells tokens (.expression tree)) :
    ReadFrom limit level (front ++ sign :: back) node where
  spells := hspells
  roomy := hlhs.roomy.between hlhs.spells hsign hkind hrhs.roomy
  wrapped := hlhs.wrapped.operation hrhs.wrapped hsign hlhs.spells.balanced hrhs.spells.balanced
    hnode hchildren hspan (hlevel _ _ hspells)

end Phrases

section Readers

variable {α : Type} {limit : Nat} {tokens : List Token} {nested : Reader Tree}

/-- What a reading has taken, its span and its value go together. -/
def Sited (P : List Token → α → Prop) (reading : Reading α tokens) : Prop :=
  ∃ taken, reading.Occupies taken ∧ P taken reading.value

/-- All that a reader reads knows where it stands. -/
def Sites (P : List Token → α → Prop) (reader : Reader α) : Prop :=
  ∀ {tokens : List Token} {reading : Reading α tokens}, reader tokens = .ok reading →
    Sited P reading

/-- Arguments that have been read remain. -/
theorem moreArguments_ne_nil (soFar : Reading (List Tree) tokens)
    {reading : Reading (List Tree) tokens} (hsoFar : soFar.value ≠ [])
    (h : moreArguments nested soFar = .ok reading) : reading.value ≠ [] := by
  fun_induction moreArguments nested soFar with
  | case1 soFar hcomma =>
      cases h
      exact hsoFar
  | case2 soFar comma hcomma ih =>
      obtain ⟨argument, hargument, h⟩ := bind_eq_ok h
      exact ih argument (by simp) h

/-- A primary that starts with a number is that number. -/
theorem spells_primary_of_number {taken rest : List Token} {tree : Tree}
    (hspells : Spells taken (.primary tree))
    (hstart : startsWith [.number] (taken ++ rest) = true) :
    ∃ number, taken = [number] ∧ number.kind = .number := by
  cases hspells with
  | number hkind => exact ⟨_, rfl, hkind⟩
  | group hopening => simp [startsWith, hopening] at hstart

variable (hnested : Sites (ReadFrom limit .expression) nested)

include hnested

/-- A primary is read from the tokens that it takes. -/
theorem primary_sites : Sites (ReadFrom (limit + 1) .primary) (primary nested) := by
  intro tokens reading h
  unfold primary at h
  split at h
  · next opening hopening =>
      obtain ⟨hopen, hfirst⟩ := take?_ofKind_eq_some hopening
      obtain ⟨inner, hinner, h⟩ := bind_eq_ok h
      obtain ⟨closing, hclosing, h⟩ := bind_eq_ok h
      cases h
      obtain ⟨taken, hmiddle, hread⟩ := hnested hinner
      obtain ⟨hclose, hlast⟩ := expect_eq_ok hclosing
      exact ⟨_, hfirst.andThen (hmiddle.andThen (hlast.as _)), hread.group hopen hclose⟩
  · obtain ⟨number, hnumber, h⟩ := bind_eq_ok h
    obtain ⟨value, hvalue, h⟩ := bind_eq_ok h
    cases h
    obtain ⟨hkind, hoccupies⟩ := expect_eq_ok hnumber
    exact ⟨_, hoccupies.as _, readFrom_number hkind hvalue⟩

/-- The loop over arguments keeps that all of them are read from the tokens taken so far. -/
theorem moreArguments_sited (soFar : Reading (List Tree) tokens)
    {reading : Reading (List Tree) tokens} (hsoFar : Sited (ArgumentsFrom limit) soFar)
    (h : moreArguments nested soFar = .ok reading) : Sited (ArgumentsFrom limit) reading := by
  fun_induction moreArguments nested soFar with
  | case1 soFar hcomma =>
      cases h
      exact hsoFar
  | case2 soFar comma hcomma ih =>
      obtain ⟨argument, hargument, h⟩ := bind_eq_ok h
      obtain ⟨hkind, hsign⟩ := take?_ofKind_eq_some hcomma
      obtain ⟨front, hfront, hargs⟩ := hsoFar
      obtain ⟨back, hback, hread⟩ := hnested hargument
      refine ih argument ⟨_, hfront.andThen (hsign.andThen (hback.as _)), ?_, ?_, ?_⟩ h
      · simpa [erasedArguments] using Spells.further hargs.spells hkind hread.spells
      · exact hargs.roomy.between hargs.spells (by simp [hkind, isPlain]) (by simp [hkind]) hread.roomy
      · exact hargs.laid.append (hread.wrapped.laid.before [comma.value])

/-- At the start of that loop there is one argument. -/
theorem firstArgument_sited {first : Reading Tree tokens} (h : nested tokens = .ok first) :
    Sited (ArgumentsFrom limit) (first.as [first.value]) := by
  obtain ⟨taken, hoccupies, hread⟩ := hnested h
  exact ⟨taken, hoccupies.as _, .argument hread.spells, hread.roomy, hread.wrapped.laid⟩

/-- What stands behind the opening parenthesis of a call: the closing one, or arguments and the
closing one. -/
theorem arguments_sited {reading : Reading (List Tree) tokens}
    (h : arguments nested tokens = .ok reading) :
    ∃ inner closing, reading.Occupies (inner ++ [closing]) ∧ closing.kind = .rparen ∧
      (inner = [] ∧ reading.value = [] ∨
        reading.value ≠ [] ∧ ArgumentsFrom limit inner reading.value) := by
  unfold arguments at h
  split at h
  · next closing hclosing =>
      cases h
      obtain ⟨hclose, hoccupies⟩ := take?_ofKind_eq_some hclosing
      exact ⟨[], closing.value, hoccupies.as _, hclose, .inl ⟨rfl, rfl⟩⟩
  · obtain ⟨first, hfirst, h⟩ := bind_eq_ok h
    obtain ⟨all, hall, h⟩ := bind_eq_ok h
    obtain ⟨closing, hclosing, h⟩ := bind_eq_ok h
    cases h
    obtain ⟨hclose, hlast⟩ := expect_eq_ok hclosing
    obtain ⟨inner, hoccupies, hargs⟩ :=
      moreArguments_sited hnested _ (firstArgument_sited hnested hfirst) hall
    have hsome : all.value ≠ [] := moreArguments_ne_nil _ (by simp) hall
    exact ⟨inner, closing.value, hoccupies.andThen (hlast.as _), hclose, .inr ⟨hsome, hargs⟩⟩

/-- What a name makes with the tokens behind it is read from them. -/
theorem namedCommand_sited {name : Reading Token tokens} (hname : name.value.kind = .identifier)
    (hfirst : name.Occupies [name.value]) {reading : Reading Tree tokens}
    (h : namedCommand nested name = .ok reading) :
    Sited (ReadFrom (limit + 1) .command) reading := by
  have hroomy : Roomy (limit + 1) [name.value] :=
    .singleton (Nat.succ_pos limit) (not_overlong (by simp [hname]))
  unfold namedCommand at h
  split at h
  · next opening hopening =>
      obtain ⟨hopen, hsecond⟩ := take?_ofKind_eq_some hopening
      obtain ⟨args, hargs, h⟩ := bind_eq_ok h
      cases h
      obtain ⟨inner, closing, hoccupies, hclose, hinner⟩ := arguments_sited hnested hargs
      have hwhole := hfirst.andThen (hsecond.andThen hoccupies)
      exact ⟨_, hwhole.as _, readFrom_call hname hopen hclose hinner hwhole.spans⟩
  · split at h
    · next hnumber =>
        obtain ⟨rhs, hrhs, h⟩ := bind_eq_ok h
        cases h
        obtain ⟨taken, hoccupies, hread⟩ := primary_sites hnested hrhs
        obtain ⟨number, rfl, hkind⟩ :=
          spells_primary_of_number hread.spells (hoccupies.takes ▸ hnumber)
        have hwhole := hfirst.andThen hoccupies
        have hboth : Roomy (limit + 1) ([name.value] ++ [number]) :=
          hroomy.append (balanced_singleton (by simp [hname, isPlain])) hread.roomy
        exact ⟨_, hwhole.as _, readFrom_command (.prefixed hname hkind hread.spells) hboth rfl
          hwhole.spans trivial (hread.wrapped.laid.before [name.value])⟩
    · cases h
      exact ⟨_, hfirst.as _, readFrom_command (.nullary hname) hroomy rfl
        (over_singleton name.value) ⟨name.value, rfl, hname, rfl⟩ (.nil _)⟩

/-- What an operand makes with the tokens behind it is read from them. -/
theorem operandCommand_sited {lhs : Reading Tree tokens}
    (hlhs : Sited (ReadFrom (limit + 1) .primary) lhs) {reading : Reading Tree tokens}
    (h : operandCommand nested lhs = .ok reading) :
    Sited (ReadFrom (limit + 1) .command) reading := by
  obtain ⟨left, hleft, hfirst⟩ := hlhs
  unfold operandCommand at h
  split at h
  · cases h
    exact ⟨left, hleft, hfirst.imp fun _ => .operand⟩
  · next name hname =>
      obtain ⟨hkind, hsecond⟩ := take?_ofKind_eq_some hname
      have hplain : isPlain name.value.kind = true := by simp [hkind, isPlain]
      have hword : name.value.kind ≠ .number := by simp [hkind]
      split at h
      · obtain ⟨rhs, hrhs, h⟩ := bind_eq_ok h
        cases h
        obtain ⟨right, hright, hlast⟩ := primary_sites hnested hrhs
        have hwhole := hleft.andThen (hsecond.andThen hright)
        have hinside := hfirst.wrapped.laid.append (hlast.wrapped.laid.before [name.value])
        exact ⟨_, hwhole.as _, readFrom_command (.infixed hfirst.spells hkind hlast.spells)
          (hfirst.roomy.between hfirst.spells hplain hword hlast.roomy) rfl hwhole.spans trivial
          hinside⟩
      · cases h
        have hwhole := hleft.andThen hsecond
        exact ⟨_, hwhole.as _, readFrom_command (.postfixed hfirst.spells hkind)
          (hfirst.roomy.between hfirst.spells hplain hword .nil) rfl hwhole.spans trivial
          (hfirst.wrapped.laid.behind [name.value])⟩

/-- A command of any shape is read from the tokens that it takes. -/
theorem command_sites : Sites (ReadFrom (limit + 1) .command) (command nested) := by
  intro tokens reading h
  unfold command at h
  split at h
  · next name hname =>
      obtain ⟨hkind, hoccupies⟩ := take?_ofKind_eq_some hname
      exact namedCommand_sited hnested hkind hoccupies h
  · obtain ⟨lhs, hlhs, h⟩ := bind_eq_ok h
    exact operandCommand_sited hnested (primary_sites hnested hlhs) h

omit hnested in
/-- Further operands keep a chain at its level, if the grammar lets it grow by one. -/
theorem chain_sited {operand : Reader Tree} {pick : Token → Option Arithmetic}
    {tight loose : Tree → Phrase} (hoperand : Sites (ReadFrom limit tight) operand)
    (hpick : ∀ sign op, pick sign = some op → sign.kind = op.sign)
    (hgrow : ∀ {front back : List Token} {sign : Token} {op : Arithmetic} {lhs rhs : Tree},
      Spells front (loose lhs) → pick sign = some op → Spells back (tight rhs) →
      Spells (front ++ sign :: back) (loose (.arithmetic op lhs rhs none)))
    (hloose : ∀ tokens tree, Spells tokens (loose tree) → Spells tokens (.expression tree))
    (left : Reading Tree tokens) {reading : Reading Tree tokens}
    (hleft : Sited (ReadFrom limit loose) left) (h : chain operand pick left = .ok reading) :
    Sited (ReadFrom limit loose) reading := by
  -- The invariant of the loop is that all that has been read so far is one phrase.
  fun_induction chain operand pick left with
  | case1 left hop =>
      cases h
      exact hleft
  | case2 left op hop ih =>
      obtain ⟨right, hright, h⟩ := bind_eq_ok h
      obtain ⟨sign, hsign, hsecond⟩ := take?_eq_some hop
      obtain ⟨front, hfront, hlhs⟩ := hleft
      obtain ⟨back, hback, hrhs⟩ := hoperand hright
      have hkind := hpick sign op.value hsign
      refine ih right ⟨_, hfront.andThen (hsecond.andThen (hback.as _)), ?_⟩ h
      refine hlhs.operation hrhs (hkind ▸ isPlain_arithmetic _) ?_ rfl rfl rfl
        (hgrow hlhs.spells hsign hrhs.spells) hloose
      rw [hkind]
      cases op.value <;> decide

omit hnested in
/-- A comparison is read from the tokens that it takes, if its operands are. -/
theorem comparison_sites {operand : Reader Tree} {pick : Token → Option Comparison}
    {tight loose : Tree → Phrase} (hoperand : Sites (ReadFrom limit tight) operand)
    (hpick : ∀ sign op, pick sign = some op → sign.kind = op.sign)
    (hone : ∀ tokens tree, Spells tokens (tight tree) → Spells tokens (loose tree))
    (htwo : ∀ {front back : List Token} {sign : Token} {op : Comparison} {lhs rhs : Tree},
      Spells front (tight lhs) → pick sign = some op → Spells back (tight rhs) →
      Spells (front ++ sign :: back) (loose (.comparison op lhs rhs none)))
    (hloose : ∀ tokens tree, Spells tokens (loose tree) → Spells tokens (.expression tree)) :
    Sites (ReadFrom limit loose) (comparison operand pick) := by
  intro tokens reading h
  obtain ⟨left, hleft, h⟩ := bind_eq_ok h
  obtain ⟨front, hfront, hlhs⟩ := hoperand hleft
  split at h
  · cases h
    exact ⟨front, hfront, hlhs.imp (hone front)⟩
  · next op hop =>
      obtain ⟨right, hright, h⟩ := bind_eq_ok h
      cases h
      obtain ⟨sign, hsign, hsecond⟩ := take?_eq_some hop
      obtain ⟨back, hback, hrhs⟩ := hoperand hright
      have hkind := hpick sign op.value hsign
      refine ⟨_, hfront.andThen (hsecond.andThen (hback.as _)), ?_⟩
      refine hlhs.operation hrhs (hkind ▸ isPlain_comparison _) ?_ rfl rfl rfl
        (htwo hlhs.spells hsign hrhs.spells) hloose
      rw [hkind]
      cases op.value <;> decide

theorem product_sites : Sites (ReadFrom (limit + 1) .product) (product nested) := by
  intro tokens reading h
  obtain ⟨left, hleft, h⟩ := bind_eq_ok h
  obtain ⟨taken, hoccupies, hfactor⟩ := command_sites hnested hleft
  refine chain_sited (command_sites hnested) ?_ ?_ ?_ left
    ⟨taken, hoccupies, hfactor.imp fun _ => .factor⟩ h
  · exact fun sign op hop => (productOperator?_eq_some.mp hop).1
  · intro front back sign op lhs rhs hlhs hsign hrhs
    obtain ⟨hkind, hop⟩ := productOperator?_eq_some.mp hsign
    exact .multiplied hlhs hkind hop hrhs
  · exact fun _ _ hproduct => .unequated (.unordered (.summand hproduct))

theorem sum_sites : Sites (ReadFrom (limit + 1) .sum) (sum nested) := by
  intro tokens reading h
  obtain ⟨left, hleft, h⟩ := bind_eq_ok h
  obtain ⟨taken, hoccupies, hsummand⟩ := product_sites hnested hleft
  refine chain_sited (product_sites hnested) ?_ ?_ ?_ left
    ⟨taken, hoccupies, hsummand.imp fun _ => .summand⟩ h
  · exact fun sign op hop => (sumOperator?_eq_some.mp hop).1
  · intro front back sign op lhs rhs hlhs hsign hrhs
    obtain ⟨hkind, hop⟩ := sumOperator?_eq_some.mp hsign
    exact .added hlhs hkind hop hrhs
  · exact fun _ _ hsum => .unequated (.unordered hsum)

theorem relation_sites : Sites (ReadFrom (limit + 1) .relation) (relation nested) := by
  refine comparison_sites (sum_sites hnested) ?_ (fun _ _ => .unordered) ?_ (fun _ _ => .unequated)
  · exact fun sign op hop => (orderOperator?_eq_some.mp hop).1
  · intro front back sign op lhs rhs hlhs hsign hrhs
    obtain ⟨hkind, hop⟩ := orderOperator?_eq_some.mp hsign
    exact .ordered hlhs hkind hop hrhs

/-- One level of nesting is read from the tokens that it takes if the next one is. -/
theorem equality_sites : Sites (ReadFrom (limit + 1) .expression) (equality nested) := by
  refine comparison_sites (relation_sites hnested) ?_ (fun _ _ => .unequated) ?_ (fun _ _ h => h)
  · exact fun sign op hop => (equalityOperator?_eq_some.mp hop).1
  · intro front back sign op lhs rhs hlhs hsign hrhs
    obtain ⟨hkind, hop⟩ := equalityOperator?_eq_some.mp hsign
    exact .equated hlhs hkind hop hrhs

omit hnested in
/-- **All expressions that are read know where they stand.** -/
theorem expression_sites (limit : Nat) : Sites (ReadFrom limit .expression) (expression limit) := by
  induction limit with
  | zero =>
      intro tokens reading h
      cases h
  | succ limit ih => exact equality_sites ih

omit hnested in
/-- **Soundness.**  Whatever is read as an expression spells it. -/
theorem expression_sound {reading : Reading Tree tokens} (h : expression limit tokens = .ok reading) :
    ∃ taken, reading.Takes taken ∧ Spells taken (.expression reading.value.erase) := by
  obtain ⟨taken, hoccupies, hread⟩ := expression_sites limit h
  exact ⟨taken, hoccupies.takes, hread.spells⟩

end Readers

end Grammar

end DiceLang
