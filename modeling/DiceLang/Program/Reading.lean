import DiceLang.Token.Scan
import DiceLang.Tree.Reading

/-!
# Reading definitions and lines

A definition is a pattern, an arrow and an expression.  The pattern shows the shape of the command
and names its parameters, of which the first is always quoted:

* `name` alone is nullary;
* `name "x"` is prefix, with the parameter `x`;
* `name "x" y` is infix, with `x` on the left and `y` on the right;
* `"x" name` is postfix.

A program is a block of definitions with line breaks between them.  A line is a block of definitions
exactly if an arrow occurs in it, and otherwise an expression.  A fault found in a text quotes the
line of it that the fault stands on.
-/

namespace DiceLang

namespace Grammar

/-- What stands before the arrow of a definition. -/
structure Pattern where
  form : Form
  parameters : List String

/-- A parameter between quotes. -/
def quotedParameter {tokens : List Token} (opening : Reading Token tokens) :
    Except Failure (Reading Token tokens) := do
  let name ← expect .identifier .parameterName opening.rest
  let closing ← expect .quote .quote name.rest
  return opening.andThen (name.andThen (closing.as name.value))

/-- The pattern of a definition.  The two parameters of an infix command must differ. -/
def pattern : Reader Pattern := fun tokens =>
  match take? (ofKind .quote) tokens with
  | some opening => do
    let parameter ← quotedParameter opening
    let name ← expect .identifier .commandName parameter.rest
    return parameter.andThen
      (name.as ⟨⟨name.value.lexeme, .postfixed⟩, [parameter.value.lexeme]⟩)
  | none => do
    let name ← expect .identifier .commandNameOrQuote tokens
    match take? (ofKind .quote) name.rest with
    | none => return name.as ⟨⟨name.value.lexeme, .nullary⟩, []⟩
    | some opening => do
      let left ← quotedParameter opening
      match take? (ofKind .identifier) left.rest with
      | none =>
        return name.andThen (left.as ⟨⟨name.value.lexeme, .prefixed⟩, [left.value.lexeme]⟩)
      | some right =>
        if right.value.lexeme = left.value.lexeme then
          throw (.ofCause (.duplicateParameter right.value.lexeme) right.value.span)
        else
          return name.andThen (left.andThen
            (right.as ⟨⟨name.value.lexeme, .infixed⟩, [left.value.lexeme, right.value.lexeme]⟩))

/-- One definition. -/
def definition (limit : Nat) : Reader Definition := fun tokens => do
  let head ← pattern tokens
  let arrow ← expect .arrow .arrow head.rest
  let body ← expression limit arrow.rest
  let whole := head.andThen (arrow.andThen body)
  return whole.as ⟨head.value.form, head.value.parameters, body.value, whole.span⟩

/-- All definitions of a list of tokens that does not start with a line break. -/
def definitions (limit : Nat) (tokens : List Token) : Except Failure (List Definition) :=
  if atEnd tokens then return []
  else do
    let first ← definition limit tokens
    if atEnd first.rest then return [first.value]
    else
      let gap ← expect .separator .lineBreak first.rest
      have : (skipSeparators gap.rest).length < tokens.length :=
        Nat.lt_of_le_of_lt (skipSeparators_length_le _) (Nat.lt_trans gap.shorter first.shorter)
      let others ← definitions limit (skipSeparators gap.rest)
      return first.value :: others
termination_by tokens.length

end Grammar

/-- The span of a whole list of tokens, up to the end token unless there is nothing else. -/
def tokensSpan? (tokens : List Token) : Option Span :=
  match tokens with
  | [] => none
  | first :: _ =>
    match (tokens.filter fun token => token.kind != .eof).getLast? with
    | some last => some (first.span.through last.span)
    | none => some first.span

/-- The block of definitions that a whole list of tokens spells. -/
def Program.ofTokens (limit : Nat) (tokens : List Token) : Except Failure Program := do
  let block ← Grammar.definitions limit (skipSeparators tokens)
  return ⟨block, tokensSpan? tokens⟩

/-- How deeply parentheses may be nested in a text.  The number stands for the limit of the stack that
an interpreter sets, which is 1000 frames.  A level takes seven of them (see `DiceLang.Parser`) and some
are in use before the first, which leaves about as many levels as this. -/
def nestingLimit : Nat := 128

/-- Reads an expression. -/
def Tree.parse (text : String) : Except Failure Tree :=
  (Tree.ofTokens nestingLimit (tokenize text)).mapError (Failure.quoting text)

/-- Reads a block of definitions. -/
def Program.parse (text : String) : Except Failure Program :=
  (Program.ofTokens nestingLimit (tokenize text)).mapError (Failure.quoting text)

/-- Reads tokens as a block of definitions if there is an arrow among them, and otherwise as an
expression. -/
def Line.ofTokens (limit : Nat) (tokens : List Token) : Except Failure Line :=
  if tokens.any fun token => token.kind == .arrow then
    (Program.ofTokens limit tokens).map .program
  else
    (Tree.ofTokens limit tokens).map .expression

/-- Reads a line. -/
def Line.parse (text : String) : Except Failure Line :=
  (Line.ofTokens nestingLimit (tokenize text)).mapError (Failure.quoting text)

end DiceLang
