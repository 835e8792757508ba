import DiceLang.Reading
import DiceLang.Tree

/-!
# Reading expressions

The grammar of expressions, from the loosest binding to the tightest:

* at most one equality operator between two relations;
* at most one ordering operator between two sums;
* sums and products, which associate to the left;
* commands, whose shape shows only in the tokens around the name: a name before a parenthesis is a
  call with a list of arguments, a name before a number is a prefix command, any other name that
  opens an operand stands alone, and a name after an operand is infix if another operand follows
  at once and postfix otherwise;
* numbers, and expressions in parentheses.

Every level is a reader that is given a reader for what stands in parentheses.  `expression` ties
the knot: its argument bounds how deeply parentheses may be nested.
-/

namespace DiceLang

namespace Grammar

/-- Integer literals are less than two to the power of 127. -/
def literalBound : Nat := Nat.pow 2 127

/-- The value of a token of digits. -/
def literal (token : Token) : Except Failure Int :=
  match Text.readDigits? token.lexeme.toList with
  | none => .error .digitLimit
  | some n =>
    if n < literalBound then .ok n
    else .error (.ofCause (.literalRange token.lexeme) token.span)

/-- The span from the start of one node to the end of another, if both are known. -/
def joinSpans : Option Span → Option Span → Option Span
  | some first, some last => some (first.through last)
  | _, _ => none

/-- The operators of sums. -/
def sumOperator? (token : Token) : Option Arithmetic :=
  match token.kind with
  | .plus => some .add
  | .minus => some .sub
  | _ => none

/-- The operators of products. -/
def productOperator? (token : Token) : Option Arithmetic :=
  match token.kind with
  | .star => some .mul
  | .slash => some .div
  | _ => none

/-- The operators that order two integers. -/
def orderOperator? (token : Token) : Option Comparison :=
  match token.kind with
  | .lt => some .lt
  | .le => some .le
  | .gt => some .gt
  | .ge => some .ge
  | _ => none

/-- The operators that tell whether two values are equal. -/
def equalityOperator? (token : Token) : Option Comparison :=
  match token.kind with
  | .eq => some .eq
  | .ne => some .ne
  | _ => none

/-- A number, or an expression in parentheses.  The parentheses leave no node behind. -/
def primary (nested : Reader Tree) : Reader Tree := fun tokens =>
  match take? (ofKind .lparen) tokens with
  | some opening => do
    let inner ← nested opening.rest
    let closing ← expect .rparen .closing inner.rest
    return opening.andThen (inner.andThen (closing.as inner.value))
  | none => do
    let number ← expect .number .number tokens
    let value ← literal number.value
    return number.as (.integer value number.value.span)

/-- Further arguments, each after a comma, behind those that have been read. -/
def moreArguments (nested : Reader Tree) {tokens : List Token}
    (soFar : Reading (List Tree) tokens) : Except Failure (Reading (List Tree) tokens) :=
  match take? (ofKind .comma) soFar.rest with
  | none => .ok soFar
  | some comma => do
    let argument ← nested comma.rest
    have : argument.rest.length < soFar.rest.length :=
      Nat.lt_trans argument.shorter comma.shorter
    moreArguments nested
      (soFar.andThen (comma.andThen (argument.as (soFar.value ++ [argument.value]))))
termination_by soFar.rest.length

/-- The arguments of a call, behind its opening parenthesis and through the closing one. -/
def arguments (nested : Reader Tree) : Reader (List Tree) := fun tokens =>
  match take? (ofKind .rparen) tokens with
  | some closing => .ok (closing.as [])
  | none => do
    let first ← nested tokens
    let all ← moreArguments nested (first.as [first.value])
    let closing ← expect .rparen .commaOrClosing all.rest
    return all.andThen (closing.as all.value)

/-- A call with its arguments in parentheses.  With one argument it is a prefix command. -/
def callNode (name : String) (args : List Tree) (span : Span) : Tree :=
  match args with
  | [rhs] => .prefixed name rhs span
  | args => .call name args span

/-- What a name makes with the tokens behind it. -/
def namedCommand (nested : Reader Tree) {tokens : List Token} (name : Reading Token tokens) :
    Except Failure (Reading Tree tokens) :=
  match take? (ofKind .lparen) name.rest with
  | some opening => do
    let args ← arguments nested opening.rest
    let whole := name.andThen (opening.andThen args)
    return whole.as (callNode name.value.lexeme whole.value whole.span)
  | none =>
    if startsWith [.number] name.rest then do
      let rhs ← primary nested name.rest
      let whole := name.andThen rhs
      return whole.as (.prefixed name.value.lexeme rhs.value whole.span)
    else
      return name.as (.nullary name.value.lexeme name.value.span)

/-- What an operand makes with the tokens behind it. -/
def operandCommand (nested : Reader Tree) {tokens : List Token} (lhs : Reading Tree tokens) :
    Except Failure (Reading Tree tokens) :=
  match take? (ofKind .identifier) lhs.rest with
  | none => return lhs
  | some name =>
    if startsWith [.number, .lparen] name.rest then do
      let rhs ← primary nested name.rest
      let whole := lhs.andThen (name.andThen rhs)
      return whole.as (.infixed name.value.lexeme lhs.value rhs.value whole.span)
    else
      let whole := lhs.andThen name
      return whole.as (.postfixed name.value.lexeme lhs.value whole.span)

/-- A command of any shape, or an operand without one. -/
def command (nested : Reader Tree) : Reader Tree := fun tokens =>
  match take? (ofKind .identifier) tokens with
  | some name => namedCommand nested name
  | none => do
    let lhs ← primary nested tokens
    operandCommand nested lhs

/-- Further operands, each after an operator, behind the one that has been read.  Each operator
takes all that stands to its left as its left operand. -/
def chain (operand : Reader Tree) (pick : Token → Option Arithmetic) {tokens : List Token}
    (left : Reading Tree tokens) : Except Failure (Reading Tree tokens) :=
  match take? pick left.rest with
  | none => .ok left
  | some op => do
    let right ← operand op.rest
    have : right.rest.length < left.rest.length := Nat.lt_trans right.shorter op.shorter
    let span := joinSpans left.value.span? right.value.span?
    let node := Tree.arithmetic op.value left.value right.value span
    chain operand pick (left.andThen (op.andThen (right.as node)))
termination_by left.rest.length

/-- A product. -/
def product (nested : Reader Tree) : Reader Tree := fun tokens => do
  let left ← command nested tokens
  chain (command nested) productOperator? left

/-- A sum. -/
def sum (nested : Reader Tree) : Reader Tree := fun tokens => do
  let left ← product nested tokens
  chain (product nested) sumOperator? left

/-- One operand, or two with an operator between them. -/
def comparison (operand : Reader Tree) (pick : Token → Option Comparison) : Reader Tree :=
  fun tokens => do
    let left ← operand tokens
    match take? pick left.rest with
    | none => return left
    | some op => do
      let right ← operand op.rest
      let span := joinSpans left.value.span? right.value.span?
      let node := Tree.comparison op.value left.value right.value span
      return left.andThen (op.andThen (right.as node))

/-- A sum, or two that an operator orders. -/
def relation (nested : Reader Tree) : Reader Tree :=
  comparison (sum nested) orderOperator?

/-- A relation, or two whose values are compared for equality. -/
def equality (nested : Reader Tree) : Reader Tree :=
  comparison (relation nested) equalityOperator?

/-- The failure to follow parentheses any deeper. -/
def tooNested : List Token → Failure
  | [] => .ofCause .nesting none
  | token :: _ => .ofCause .nesting token.span

/-- An expression with fewer than `limit` parentheses open at any place. -/
def expression : (limit : Nat) → Reader Tree
  | 0 => fun tokens => .error (tooNested tokens)
  | limit + 1 => equality (expression limit)

end Grammar

/-- The expression that a whole list of tokens spells.  Only line breaks may follow it. -/
def Tree.ofTokens (limit : Nat) (tokens : List Token) : Except Failure Tree := do
  let reading ← Grammar.expression limit tokens
  let rest := skipSeparators reading.rest
  if atEnd rest then return reading.value
  else throw (refuse .endOfInput rest)

end DiceLang
