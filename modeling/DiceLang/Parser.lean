import DiceLang.Program.Reading
import Mathlib.Data.PFun

/-!
# Parsing on a bounded stack

The readers of `DiceLang.Grammar` take apart the lists that cutting a text yields, which an end token
closes.  Here the same language is parsed by functions that share a position in a list of any symbols,
closed or not, and that call each other on a stack of bounded height.

Behind the end of a list its last symbol goes on standing.  After an end token nothing more is read,
but any other symbol can be taken there again and again, and line breaks are: skipping them does not
come to an end then.  So a parser is a partial function.  Where it is defined it has a value or has
been broken off, and in both cases it has reached some position.

Each call of a parsing function takes one place of the stack until it returns.  The functions are
written for any way of calling each other, and `invoke` calls them with the places that are left.
-/

namespace DiceLang

/-- A token as a parser is given it, with a value of its own: what a name says need not be the text
that it was cut from. -/
structure Symbol extends Token where
  value : String
deriving DecidableEq

/-- The symbol for a token that has been cut from a text. -/
def Token.symbol (token : Token) : Symbol :=
  { token with value := token.value?.getD "" }

/-- Picks the symbols of one kind. -/
def Symbol.ofKind (kind : Kind) (symbol : Symbol) : Option Symbol :=
  if symbol.kind = kind then some symbol else none

/-- The ways in which parsing is broken off. -/
inductive Abort
  /-- A mistake that the language reports. -/
  | fault (mistake : Fault)
  /-- The text of a numeral is not that of an integer, or is too long to be converted. -/
  | unreadable (text : String)
  /-- There is no symbol at the place that was looked at. -/
  | missing
  /-- There is no place left on the stack. -/
  | overflow
deriving DecidableEq

/-- Adds the line of a text that a fault stands on. -/
def Abort.quoting (text : String) : Abort → Abort
  | .fault mistake => .fault (mistake.quoting text)
  | abort => abort

/-- A computation with a list of symbols and a position in it. -/
abbrev Parser : Type → Type :=
  ReaderT (List Symbol) (ExceptT Abort (StateT Nat Part))

namespace Parser

variable {α σ : Type}

/-- The symbol at the position, or the last one behind the end. -/
def current : Parser Symbol := do
  let symbols ← read
  match symbols[← get]?, symbols.getLast? with
  | some symbol, _ => return symbol
  | none, some last => return last
  | none, none => throw .missing

/-- Whether the current symbol is the end token. -/
def isAtEnd : Parser Bool := return (← current).kind == .eof

/-- Whether the current symbol is of one of the given kinds. -/
def check (kinds : List Kind) : Parser Bool := return kinds.contains (← current).kind

/-- Goes on to the next position, unless the current symbol is the end token. -/
def advance : Parser Unit := do
  if ← isAtEnd then return () else modify (· + 1)

/-- Takes the current symbol if something can be made of it. -/
def accept (pick : Symbol → Option α) : Parser (Option α) := do
  match pick (← current) with
  | none => return none
  | some value => do
    advance
    return some value

/-- What is wrong with a token where something else was expected. -/
def complaint (expected : Expectation) (token : Token) : Cause :=
  match token.kind with
  | .eof => .unfinished expected
  | .illegal => .illegal token.lexeme
  | _ => .unexpected expected token

/-- Complains about the current symbol. -/
def complain (expected : Expectation) : Parser α := do
  let symbol ← current
  throw (.fault ⟨complaint expected symbol.toToken, symbol.span, none⟩)

/-- Takes the current symbol if it is of one kind, or else complains. -/
def consume (kind : Kind) (expected : Expectation) : Parser Symbol := do
  match ← accept (Symbol.ofKind kind) with
  | some symbol => return symbol
  | none => complain expected

/-- The span from the start of a symbol to the end of the one before the position, or of the very
first one. -/
def spanFrom (start : Symbol) : Parser Span := do
  match (← read)[(← get) - 1]? with
  | some last => return start.span.through last.span
  | none => throw .missing

/-- What one step of a loop comes to: the result of the loop, or the place where it goes on. -/
def settle {ρ : Type} : Except Abort (ρ ⊕ σ) × Nat → (Except Abort ρ × Nat) ⊕ (σ × Nat)
  | (.ok (.inl result), pos) => .inl (.ok result, pos)
  | (.ok (.inr state), pos) => .inr (state, pos)
  | (.error abort, pos) => .inl (.error abort, pos)

/-- Repeats a step until it has a result.  A step that has none gives the state for the next one. -/
def loop {ρ : Type} (step : σ → Parser (ρ ⊕ σ)) (state : σ) : Parser ρ := fun symbols pos =>
  PFun.fix (fun place => (step place.1 symbols place.2).map settle) (state, pos)

/-- Takes one line break, if there is one. -/
def skipSeparator : Parser (Unit ⊕ Unit) := do
  match ← accept (Symbol.ofKind .separator) with
  | some _ => return .inr ()
  | none => return .inl ()

/-- Takes all line breaks. -/
def skipSeparators : Parser Unit := loop (fun _ => skipSeparator) ()

/-- Makes a numeral into a tree. -/
def numeral (symbol : Symbol) : Parser Tree :=
  match Text.integer? symbol.lexeme with
  | none => throw (.unreadable symbol.lexeme)
  | some value =>
    if -Grammar.literalBound ≤ value ∧ value < Grammar.literalBound then
      return .integer value symbol.span
    else throw (.fault ⟨.literalRange symbol.lexeme, symbol.span, none⟩)

/-- The functions that call each other. -/
inductive Callee
  | definition
  | pattern
  | expression
  | equality
  | relational
  | additive
  | multiplicative
  | call
  | arguments
  | primary

/-- What a function returns. -/
abbrev Callee.Result : Callee → Type
  | definition => Definition
  | pattern => Grammar.Pattern
  | arguments => List Tree
  | expression | equality | relational | additive | multiplicative | call | primary => Tree

section Functions

variable (self : (callee : Callee) → Parser callee.Result)

/-- A number, or an expression in parentheses. -/
def primary : Parser Tree := do
  match ← accept (Symbol.ofKind .lparen) with
  | some _ => do
    let tree ← self .expression
    let _ ← consume .rparen .closing
    return tree
  | none => do
    let symbol ← consume .number .number
    numeral symbol

/-- One further argument, after a comma. -/
def nextArgument (args : List Tree) : Parser (List Tree ⊕ List Tree) := do
  match ← accept (Symbol.ofKind .comma) with
  | none => return .inl args
  | some _ => do
    let arg ← self .expression
    return .inr (args ++ [arg])

/-- The arguments of a call, behind the opening parenthesis and through the closing one. -/
def arguments : Parser (List Tree) := do
  match ← accept (Symbol.ofKind .rparen) with
  | some _ => return []
  | none => do
    let first ← self .expression
    let args ← loop (nextArgument self) [first]
    let _ ← consume .rparen .commaOrClosing
    return args

/-- What a name makes with the symbols behind it. -/
def named (start name : Symbol) : Parser Tree := do
  match ← accept (Symbol.ofKind .lparen) with
  | some _ => do
    let args ← self .arguments
    return Grammar.callNode name.value args (← spanFrom start)
  | none =>
    if ← check [.number] then do
      let rhs ← self .primary
      return .prefixed name.value rhs (← spanFrom start)
    else return .nullary name.value name.span

/-- What an operand makes with the symbols behind it. -/
def operand (start : Symbol) (lhs : Tree) : Parser Tree := do
  match ← accept (Symbol.ofKind .identifier) with
  | none => return lhs
  | some name =>
    if ← check [.number, .lparen] then do
      let rhs ← self .primary
      return .infixed name.value lhs rhs (← spanFrom start)
    else return .postfixed name.value lhs (← spanFrom start)

/-- A command of any shape, or an operand without one. -/
def call : Parser Tree := do
  let start ← current
  match ← accept (Symbol.ofKind .identifier) with
  | some name => named self start name
  | none => do
    let lhs ← self .primary
    operand self start lhs

/-- One further operand, after an operator that takes all to its left. -/
def nextOperand (operand : Parser Tree) (pick : Token → Option Arithmetic) (left : Tree) :
    Parser (Tree ⊕ Tree) := do
  match ← accept fun symbol => pick symbol.toToken with
  | none => return .inl left
  | some op => do
    let right ← operand
    return .inr (.arithmetic op left right (Grammar.joinSpans left.span? right.span?))

/-- Operands with operators between them that associate to the left. -/
def chain (operand : Parser Tree) (pick : Token → Option Arithmetic) : Parser Tree := do
  let left ← operand
  loop (nextOperand operand pick) left

/-- One operand, or two with an operator between them. -/
def comparison (operand : Parser Tree) (pick : Token → Option Comparison) : Parser Tree := do
  let left ← operand
  match ← accept fun symbol => pick symbol.toToken with
  | none => return left
  | some op => do
    let right ← operand
    return .comparison op left right (Grammar.joinSpans left.span? right.span?)

/-- A parameter between quotes, behind the opening one. -/
def quotedParameter : Parser Symbol := do
  let parameter ← consume .identifier .parameterName
  let _ ← consume .quote .quote
  return parameter

/-- The pattern of a definition. -/
def pattern : Parser Grammar.Pattern := do
  match ← accept (Symbol.ofKind .quote) with
  | some _ => do
    let parameter ← quotedParameter
    let name ← consume .identifier .commandName
    return ⟨⟨name.value, .postfixed⟩, [parameter.value]⟩
  | none => do
    let name ← consume .identifier .commandNameOrQuote
    match ← accept (Symbol.ofKind .quote) with
    | none => return ⟨⟨name.value, .nullary⟩, []⟩
    | some _ => do
      let left ← quotedParameter
      match ← accept (Symbol.ofKind .identifier) with
      | none => return ⟨⟨name.value, .prefixed⟩, [left.value]⟩
      | some right =>
        if right.value = left.value then
          throw (.fault ⟨.duplicateParameter right.value, right.span, none⟩)
        else return ⟨⟨name.value, .infixed⟩, [left.value, right.value]⟩

/-- One definition. -/
def definition : Parser Definition := do
  let start ← current
  let head ← self .pattern
  let _ ← consume .arrow .arrow
  let body ← self .expression
  return ⟨head.form, head.parameters, body, some (← spanFrom start)⟩

/-- What each function does. -/
def body : (callee : Callee) → Parser callee.Result
  | .definition => definition self
  | .pattern => pattern
  | .expression => self .equality
  | .equality => comparison (self .relational) Grammar.equalityOperator?
  | .relational => comparison (self .additive) Grammar.orderOperator?
  | .additive => chain (self .multiplicative) Grammar.sumOperator?
  | .multiplicative => chain (self .call) Grammar.productOperator?
  | .call => call self
  | .arguments => arguments self
  | .primary => primary self

/-- Reports at the current symbol that the stack is used up. -/
def complainOfNesting : Parser α := do
  let symbol ← current
  throw (.fault ⟨.nesting, symbol.span, none⟩)

/-- What becomes of the end that a parser has come to when it is guarded. -/
def rescue (symbols : List Symbol) : Except Abort α × Nat → Part (Except Abort α × Nat)
  | (.error .overflow, pos) => complainOfNesting symbols pos
  | reached => .some reached

/-- A parser that reports where the stack is used up. -/
def guarded (parser : Parser α) : Parser α := fun symbols pos =>
  (parser symbols pos).bind (rescue symbols)

/-- An expression that only line breaks may follow. -/
def wholeExpression : Parser Tree := do
  let tree ← guarded (self .expression)
  skipSeparators
  if ← isAtEnd then return tree else complain .endOfInput

/-- One further definition and the line breaks behind it, unless the end has been reached. -/
def nextDefinition (block : List Definition) : Parser (List Definition ⊕ List Definition) := do
  if ← isAtEnd then return .inl block
  else do
    let next ← guarded (self .definition)
    if ← isAtEnd then return .inl (block ++ [next])
    else do
      let _ ← consume .separator .lineBreak
      skipSeparators
      return .inr (block ++ [next])

/-- Definitions with line breaks between them. -/
def wholeProgram : Parser Program := do
  let start ← current
  skipSeparators
  let block ← loop (nextDefinition self) []
  return ⟨block, some (← spanFrom start)⟩

end Functions

/-- Calls a function when so many places of the stack are left. -/
def invoke : (room : Nat) → (callee : Callee) → Parser callee.Result
  | 0, _ => throw .overflow
  | room + 1, callee => body (invoke room) callee

/-- What comes of parsing from the first symbol on, with the lines of the source quoted if there is
one.  Nothing comes of it if parsing does not come to an end. -/
def outcome (parser : Parser α) (source : Option String) (symbols : List Symbol) :
    Part (Except Abort α) :=
  (parser symbols 0).map fun result =>
    match source with
    | some text => result.1.mapError (Abort.quoting text)
    | none => result.1

/-- Parses symbols as an expression, with at most `limit` calls open at once. -/
def parseExpression (limit : Nat) : Option String → List Symbol → Part (Except Abort Tree) :=
  outcome (wholeExpression (invoke limit))

/-- Parses symbols as a block of definitions, with at most `limit` calls open at once. -/
def parseProgram (limit : Nat) : Option String → List Symbol → Part (Except Abort Program) :=
  outcome (wholeProgram (invoke limit))

end Parser

end DiceLang
