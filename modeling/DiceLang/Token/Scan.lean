import DiceLang.Token

/-!
# Cutting a text into tokens

A `Scanner` holds the text that is still ahead and the location where it starts.  `Scanner.next`
skips blanks and takes the longest lexeme that starts there; once the text is used up it yields the
end token again and again.  `Scanner.tokens` collects everything up to the first end token, and
`tokenize` does so for a whole text.

Main statements: `Lexeme.append_rest` (a lexeme and what follows it make up the text it was cut
from), and `Scanner.next_ahead_lt` (a token other than the end token uses up some text).
-/

namespace DiceLang

/-- Blanks stand between tokens and mean nothing. -/
def isBlank (c : Char) : Bool :=
  c == ' ' || c == '\t' || c == '\r'

/-- Layout may follow a newline without ending the separator that the newline opens. -/
def isLayout (c : Char) : Bool :=
  c == '\n' || isBlank c

/-- The operators of two characters. -/
def digraph? : Char → Char → Option Kind
  | '=', '=' => some .eq
  | '=', '>' => some .arrow
  | '!', '=' => some .ne
  | '<', '=' => some .le
  | '<', '>' => some .ne
  | '>', '=' => some .ge
  | _, _ => none

/-- What a character is on its own, when it opens neither a run nor a digraph. -/
def monograph : Char → Kind
  | '+' => .plus
  | '-' => .minus
  | '*' => .star
  | '/' => .slash
  | '(' => .lparen
  | ')' => .rparen
  | ',' => .comma
  | '"' => .quote
  | '=' => .eq
  | '<' => .lt
  | '>' => .gt
  | _ => .illegal

/-- The front of a text, cut off as one word: its kind, its characters and what follows. -/
structure Lexeme where
  kind : Kind
  chars : List Char
  rest : List Char

namespace Lexeme

/-- The word that a character opens together with the longest run that `p` admits after it. -/
def run (kind : Kind) (p : Char → Bool) (c : Char) (text : List Char) : Lexeme :=
  ⟨kind, c :: text.takeWhile p, text.dropWhile p⟩

/-- The word that a character makes with the one after it, if the two form an operator, and
otherwise on its own. -/
def operator (c : Char) : List Char → Lexeme
  | [] => ⟨monograph c, [c], []⟩
  | d :: text =>
    match digraph? c d with
    | some kind => ⟨kind, [c, d], text⟩
    | none => ⟨monograph c, [c], d :: text⟩

/-- The longest word at the front of `c :: text`, where `c` is not a blank. -/
def first (c : Char) (text : List Char) : Lexeme :=
  if c = '\n' then run .separator isLayout c text
  else if c.isDigit then run .number Char.isDigit c text
  else if c.isAlpha then run .identifier Char.isAlpha c text
  else operator c text

/-- A run and what it leaves are the whole text. -/
theorem run_append_rest (kind : Kind) (p : Char → Bool) (c : Char) (text : List Char) :
    (run kind p c text).chars ++ (run kind p c text).rest = c :: text := by
  simp [run]

/-- A sign and what it leaves are the whole text. -/
theorem operator_append_rest (c : Char) (text : List Char) :
    (operator c text).chars ++ (operator c text).rest = c :: text := by
  unfold operator
  split
  · rfl
  · split <;> rfl

/-- **Nothing is lost.**  A word and what follows it make up the text it was cut from. -/
theorem append_rest (c : Char) (text : List Char) :
    (first c text).chars ++ (first c text).rest = c :: text := by
  unfold first
  split
  · exact run_append_rest ..
  · split
    · exact run_append_rest ..
    · split
      · exact run_append_rest ..
      · exact operator_append_rest ..

/-- What follows a word is shorter than the text it was cut from. -/
theorem rest_length_lt (c : Char) (text : List Char) :
    (first c text).rest.length < (c :: text).length := by
  have drop_le (p : Char → Bool) : (text.dropWhile p).length ≤ text.length :=
    (List.dropWhile_sublist p).length_le
  have run_lt (kind : Kind) (p : Char → Bool) :
      (run kind p c text).rest.length < (c :: text).length := by
    have := drop_le p
    simp only [run, List.length_cons]
    omega
  have operator_lt : (operator c text).rest.length < (c :: text).length := by
    unfold operator
    split
    · simp
    · split
      · simp only [List.length_cons]; omega
      · simp
  unfold first
  split
  · exact run_lt ..
  · split
    · exact run_lt ..
    · split
      · exact run_lt ..
      · exact operator_lt

end Lexeme

/-- A text that is being cut: what is still ahead, and where that starts. -/
structure Scanner where
  location : Location
  ahead : List Char

namespace Scanner

/-- A scanner at the start of a text. -/
def ofText (text : String) : Scanner := ⟨.origin, text.toList⟩

/-- The next token and the scanner behind it. -/
def next (scanner : Scanner) : Token × Scanner :=
  let start := scanner.location.after (scanner.ahead.takeWhile isBlank)
  match scanner.ahead.dropWhile isBlank with
  | [] => (⟨.eof, "", start, start⟩, ⟨start, []⟩)
  | c :: text =>
    let lexeme := Lexeme.first c text
    let stop := start.after lexeme.chars
    (⟨lexeme.kind, String.ofList lexeme.chars, start, stop⟩, ⟨stop, lexeme.rest⟩)

/-- A token other than the end token uses up some of the text ahead. -/
theorem next_ahead_lt {scanner after : Scanner} {token : Token}
    (h : scanner.next = (token, after)) (more : token.kind ≠ .eof) :
    after.ahead.length < scanner.ahead.length := by
  have skipped : (scanner.ahead.dropWhile isBlank).length ≤ scanner.ahead.length :=
    (List.dropWhile_sublist isBlank).length_le
  unfold next at h
  split at h
  · cases h
    exact absurd rfl more
  · next c text front =>
    cases h
    have shorter := Lexeme.rest_length_lt c text
    rw [front] at skipped
    exact Nat.lt_of_lt_of_le shorter skipped

/-- All tokens up to and including the first end token. -/
def tokens (scanner : Scanner) : List Token :=
  match h : scanner.next with
  | (token, after) =>
    if more : token.kind = .eof then [token]
    else
      have : after.ahead.length < scanner.ahead.length := next_ahead_lt h more
      token :: after.tokens
termination_by scanner.ahead.length

/-- The tokens of so many steps, the end token repeated as often as needed. -/
def take (scanner : Scanner) : Nat → List Token
  | 0 => []
  | n + 1 =>
    let (token, after) := scanner.next
    token :: after.take n

end Scanner

/-- The tokens of a text, closed by the end token. -/
def tokenize (text : String) : List Token :=
  (Scanner.ofText text).tokens

end DiceLang
