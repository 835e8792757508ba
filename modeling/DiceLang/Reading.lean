import DiceLang.Fault

/-!
# Reading token lists

A reader takes some tokens off the front of a list and makes a value of them.  What it returns, a
`Reading`, carries the proof that the tokens left over are fewer, so a loop of readers ends because
it runs out of tokens.

A list of tokens is meant to be closed by an end token, which no reader takes, as the tokens of every
text are.  On a list that is not the readers only go as far as there are tokens; what becomes of any
list at all is the subject of `DiceLang.Parser`, with which the readers agree where the list is closed.
-/

namespace DiceLang

/-- A value made of one or more tokens at the front of a list. -/
structure Reading (α : Type) (tokens : List Token) where
  value : α
  /-- From the start of the first token that was taken to the end of the last. -/
  span : Span
  /-- The tokens that were not taken. -/
  rest : List Token
  shorter : rest.length < tokens.length

/-- Takes tokens off the front of a list, or says why it cannot. -/
abbrev Reader (α : Type) : Type :=
  (tokens : List Token) → Except Failure (Reading α tokens)

namespace Reading

variable {α β : Type} {tokens : List Token}

/-- The same tokens, made into another value. -/
def as (reading : Reading α tokens) (value : β) : Reading β tokens :=
  { reading with value }

/-- Two readings in a row, as one that keeps the second value. -/
def andThen (first : Reading α tokens) (second : Reading β first.rest) : Reading β tokens where
  value := second.value
  span := first.span.through second.span
  rest := second.rest
  shorter := Nat.lt_trans second.shorter first.shorter

end Reading

/-- Takes the first token if something can be made of it. -/
def take? {α : Type} (pick : Token → Option α) : (tokens : List Token) →
    Option (Reading α tokens)
  | [] => none
  | token :: rest =>
    match pick token with
    | some value => some ⟨value, token.span, rest, Nat.lt_succ_self _⟩
    | none => none

/-- Picks the tokens of one kind. -/
def ofKind (kind : Kind) (token : Token) : Option Token :=
  if token.kind = kind then some token else none

/-- The failure to find something at the front of a list. -/
def refuse (expected : Expectation) : List Token → Failure
  | [] => .ofCause (.unfinished expected) none
  | token :: _ =>
    match token.kind with
    | .eof => .ofCause (.unfinished expected) token.span
    | .illegal => .ofCause (.illegal token.lexeme) token.span
    | _ => .ofCause (.unexpected expected token) token.span

/-- Takes a token of one kind, or fails to find what was expected. -/
def expect (kind : Kind) (expected : Expectation) : Reader Token := fun tokens =>
  match take? (ofKind kind) tokens with
  | some reading => .ok reading
  | none => .error (refuse expected tokens)

/-- Whether the first token is of one of the given kinds. -/
def startsWith (kinds : List Kind) : List Token → Bool
  | [] => false
  | token :: _ => kinds.contains token.kind

/-- Whether no token but the end token is left. -/
def atEnd : List Token → Bool
  | [] => true
  | token :: _ => token.kind == .eof

/-- The list without the separators at its front. -/
def skipSeparators (tokens : List Token) : List Token :=
  tokens.dropWhile fun token => token.kind == .separator

/-- Skipping line breaks makes a list no longer. -/
theorem skipSeparators_length_le (tokens : List Token) :
    (skipSeparators tokens).length ≤ tokens.length :=
  (List.dropWhile_sublist _).length_le

end DiceLang
