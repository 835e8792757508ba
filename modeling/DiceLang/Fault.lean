import DiceLang.Diagnostic
import DiceLang.Form
import DiceLang.Text.Decimal
import DiceLang.Token

/-!
# What can go wrong

A `Fault` is a mistake in a text that the language reports to its author: a `Cause`, the span to
point at and, for mistakes found while reading, the line it stands on.  `Cause.code`,
`Cause.message` and `Cause.hints` are the only place where faults are put into words.

A `Failure` is any way in which reading or evaluating can end without a result.  Besides faults
there are those that no diagnostic reports: a number too long to be converted, a node that is not
an expression, a tree too deep to be followed, dice that cannot be rolled, and a text that is not
there.
-/

namespace DiceLang

/-- What the reader of a token list was looking for. -/
inductive Expectation
  | number
  | closing
  | commaOrClosing
  | endOfInput
  | lineBreak
  | arrow
  | quote
  | parameterName
  | commandName
  | commandNameOrQuote
deriving DecidableEq

/-- How messages speak of what was looked for. -/
def Expectation.text : Expectation → String
  | number => "number or '('"
  | closing => "')'"
  | commaOrClosing => "',' or ')'"
  | endOfInput => "end of input"
  | lineBreak => "newline"
  | arrow => "'=>'"
  | quote => "'\"'"
  | parameterName => "parameter name"
  | commandName => "command name"
  | commandNameOrQuote => "command name or '\"'"

/-- The mistakes that the language reports. -/
inductive Cause
  /-- A token stands where something else belongs. -/
  | unexpected (expected : Expectation) (found : Token)
  /-- The text ends where something belongs. -/
  | unfinished (expected : Expectation)
  /-- A character that is part of no token stands where something belongs. -/
  | illegal (lexeme : String)
  /-- An integer literal is too large. -/
  | literalRange (lexeme : String)
  /-- Both parameters of a definition have one name. -/
  | duplicateParameter (name : String)
  /-- Parentheses are nested too deeply. -/
  | nesting
  /-- A command of this form is neither built in nor defined. -/
  | unknownForm (form : Form)
  /-- A call with so many arguments has no shape, so no command can answer it. -/
  | shapeless (name : String) (given : Nat)
  /-- A command is called with the wrong number of arguments. -/
  | arity (name : String) (expected given : Nat)
  /-- A boolean stands where an integer belongs. -/
  | notInteger
  | divisionByZero
  /-- Fewer than no dice, or dice without sides. -/
  | invalidDice (count sides : Int)
  /-- Calls are nested too deeply. -/
  | recursion
deriving DecidableEq

namespace Cause

/-- The code of a mistake: E1xx for those of a text, E2xx for those of its evaluation. -/
def code : Cause → String
  | unexpected .. => "E101"
  | unfinished .. => "E102"
  | illegal .. => "E103"
  | literalRange .. => "E104"
  | duplicateParameter .. => "E105"
  | nesting => "E106"
  | unknownForm .. => "E201"
  | shapeless .. => "E201"
  | arity .. => "E202"
  | notInteger => "E203"
  | divisionByZero => "E204"
  | invalidDice .. => "E205"
  | recursion => "E206"

/-- A mistake in words. -/
def message : Cause → String
  | unexpected expected found => "expected " ++ expected.text ++ ", found " ++ found.describe
  | unfinished expected => "unexpected end of input, expected " ++ expected.text
  | illegal lexeme => "illegal character '" ++ lexeme ++ "'"
  | literalRange lexeme => "invalid number literal '" ++ lexeme ++ "'"
  | duplicateParameter name => "duplicate parameter '" ++ name ++ "'"
  | nesting => "expression nested too deeply"
  | unknownForm form => "unknown " ++ form.shape.text ++ " command '" ++ form.name ++ "'"
  | shapeless name given => "unknown " ++ Nat.repr given ++ "-argument command '" ++ name ++ "'"
  | arity name expected given =>
    "command '" ++ name ++ "' takes " ++ Nat.repr expected ++ " argument(s), " ++
      Nat.repr given ++ " given"
  | notInteger => "type mismatch: expected 'integer', found 'boolean'"
  | divisionByZero => "division by zero"
  | invalidDice count sides =>
    "cannot roll " ++ Text.decimal count ++ " dice with " ++ Text.decimal sides ++ " side(s)"
  | recursion => "recursion limit exceeded"

/-- Advice that goes with a mistake. -/
def hints : Cause → List String
  | literalRange .. => ["integer literals must fit in a signed 128-bit integer"]
  | invalidDice .. => ["the roll count must be >= 0 and the side count >= 1"]
  | recursion => ["expressions or command calls are nested too deeply to evaluate"]
  | _ => []

end Cause

/-- A mistake, the span to point at and the line it stands on, as far as they are known. -/
structure Fault where
  cause : Cause
  span : Option Span
  sourceLine : Option String
deriving DecidableEq

namespace Fault

/-- The diagnostic that reports a fault. -/
def diagnostic (fault : Fault) : Diagnostic where
  code := fault.cause.code
  message := fault.cause.message
  span := fault.span
  sourceLine := fault.sourceLine
  hints := fault.cause.hints

/-- The printed report of a fault. -/
def text (fault : Fault) : String := fault.diagnostic.text

/-- Adds the line of a text that a fault stands on.  Where a text ends too early there is nothing
to quote. -/
def quoting (text : String) (fault : Fault) : Fault :=
  match fault.cause with
  | .unfinished _ => fault
  | _ => { fault with sourceLine := fault.span.bind fun span => lineOf? text span.start.line }

/-- The line that is quoted is no part of the cause. -/
theorem cause_quoting (text : String) (fault : Fault) : (fault.quoting text).cause = fault.cause := by
  unfold quoting
  split <;> rfl

end Fault

/-- Why a roll could not be had. -/
inductive Mishap
  /-- The rolls that were laid out are used up. -/
  | exhausted
  /-- The player broke off. -/
  | interrupted
deriving DecidableEq

/-- The ways of ending without a result. -/
inductive Failure
  /-- A mistake that the language reports. -/
  | fault (mistake : Fault)
  /-- An integer has too many digits to be read or written. -/
  | digitLimit
  /-- A node that is not an expression was to be evaluated. -/
  | notExpression (nodeName : String)
  /-- A tree or a chain of calls is too deep to be followed. -/
  | tooDeep
  /-- The dice failed. -/
  | mishap (reason : Mishap)
  /-- A text was to be run that is withheld. -/
  | withheld
deriving DecidableEq

namespace Failure

/-- A fault of evaluation. -/
def ofCause (cause : Cause) (span : Option Span) : Failure :=
  .fault ⟨cause, span, none⟩

/-- Adds the line of a text that a fault stands on. -/
def quoting (text : String) : Failure → Failure
  | .fault mistake => .fault (mistake.quoting text)
  | failure => failure

/-- Points a fault that points nowhere at a given span. -/
def orAt (span : Option Span) : Failure → Failure
  | .fault ⟨cause, none, sourceLine⟩ => .fault ⟨cause, span, sourceLine⟩
  | failure => failure

end Failure

end DiceLang
