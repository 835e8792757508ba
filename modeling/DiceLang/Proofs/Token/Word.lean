import DiceLang.Proofs.Grammar
import DiceLang.Proofs.Token.Scan

/-!
# Words

What a text is cut into depends on how it is put together.  A parenthesis or a comma is a word
whatever follows it; a number, a name or an operator is one if a parenthesis, a comma or nothing
follows.  `Cut P text rest` says that `text`, with `rest` behind it, is cut into tokens with the
property `P`, and `Cut.append` puts such pieces together.

The other way round, `named_tokenize` says what the identifiers of any text look like.
-/

namespace DiceLang

/-- Whether a name is a run of ASCII letters that is not empty. -/
def Text.isName (name : String) : Bool :=
  !name.toList.isEmpty && name.toList.all Char.isAlpha

/-- The lexemes of all identifiers are names. -/
def Named (tokens : List Token) : Prop :=
  ∀ token ∈ tokens, token.kind = .identifier → Text.isName token.lexeme = true

/-- Fewer tokens are named if all are. -/
theorem Named.subset {tokens others : List Token} (h : Named tokens) (hsubset : others ⊆ tokens) :
    Named others :=
  fun token htoken => h token (hsubset htoken)

/-- What is cut off as a name is one. -/
theorem Lexeme.isName_of_first {c : Char} {text : List Char}
    (h : (Lexeme.first c text).kind = .identifier) :
    Text.isName (String.ofList (Lexeme.first c text).chars) = true := by
  rcases Lexeme.first_cases c text with ⟨-, hrun⟩ | ⟨-, hrun⟩ | ⟨halpha, hrun⟩ | ⟨-, hkind⟩
  · rw [hrun] at h
    cases h
  · rw [hrun] at h
    cases h
  · rw [hrun]
    simp [Text.isName, run, halpha]
  · rw [h] at hkind
    exact absurd hkind (by decide)

/-- All identifiers in a text are names. -/
theorem named_tokenize (text : String) : Named (tokenize text) := by
  intro token htoken hkind
  obtain heof | ⟨c, rest, -, hfirst, hlexeme⟩ := mem_tokenize htoken
  · cases hkind.symm.trans heof
  · rw [hlexeme]
    exact Lexeme.isName_of_first (hfirst.symm.trans hkind)

/-- How an operator of arithmetic is spelt. -/
def Arithmetic.spelling : Arithmetic → List Char
  | add => ['+']
  | sub => ['-']
  | mul => ['*']
  | div => ['/']

/-- The ways in which an operator of comparison can be spelt. -/
def Comparison.spellings : Comparison → List (List Char)
  | eq => [['='], ['=', '=']]
  | ne => [['!', '='], ['<', '>']]
  | lt => [['<']]
  | le => [['<', '=']]
  | gt => [['>']]
  | ge => [['>', '=']]

/-- The characters that are words whatever follows them. -/
def delimiters : List Char := ['(', ')', ',']

/-- Nothing follows, or a delimiter does. -/
def Delimited (rest : List Char) : Prop :=
  ∀ c ∈ rest.head?, c ∈ delimiters

/-- A text with `rest` behind it is cut into tokens with a property, wherever it stands, and then
`rest` is cut. -/
def Cut (P : List Token → Prop) (text rest : List Char) : Prop :=
  ∀ here : Location, ∃ tokens, P tokens ∧
    (⟨here, text ++ rest⟩ : Scanner).tokens =
      tokens ++ (⟨here.after text, rest⟩ : Scanner).tokens

namespace Cut

variable {P Q R : List Token → Prop} {front back text rest : List Char}

/-- What is known of the tokens may be weakened. -/
theorem imp (h : Cut P text rest) (himp : ∀ tokens, P tokens → Q tokens) : Cut Q text rest := by
  intro here
  obtain ⟨tokens, htokens, hcut⟩ := h here
  exact ⟨tokens, himp tokens htokens, hcut⟩

/-- Two pieces in a row are cut one after the other. -/
theorem append (hfront : Cut P front (back ++ rest)) (hback : Cut Q back rest)
    (hjoin : ∀ tokens others, P tokens → Q others → R (tokens ++ others)) :
    Cut R (front ++ back) rest := by
  intro here
  obtain ⟨tokens, htokens, hfirst⟩ := hfront here
  obtain ⟨others, hothers, hsecond⟩ := hback (here.after front)
  refine ⟨tokens ++ others, hjoin tokens others htokens hothers, ?_⟩
  rw [List.append_assoc, hfirst, hsecond, Location.after_append, List.append_assoc]

end Cut

/-- A list that is one token, of a given kind and with a given lexeme. -/
def IsWord (kind : Kind) (word : List Char) (tokens : List Token) : Prop :=
  ∃ token : Token, tokens = [token] ∧ token.kind = kind ∧ token.lexeme = String.ofList word

/-- A word that is cut off as a whole is one token. -/
theorem cut_word {c : Char} {word rest : List Char} {kind : Kind} (hblank : isBlank c = false)
    (hword : Lexeme.first c (word ++ rest) = ⟨kind, c :: word, rest⟩) :
    Cut (IsWord kind (c :: word)) (c :: word) rest :=
  fun here => ⟨_, ⟨_, rfl, rfl, rfl⟩, Scanner.tokens_word hblank hword here⟩

/-- A delimiter is a word whatever follows it. -/
theorem cut_delimiter {c : Char} (hc : c ∈ delimiters) (rest : List Char) :
    Cut (IsWord (monograph c) [c]) [c] rest := by
  simp only [delimiters, List.mem_cons, List.not_mem_nil, or_false] at hc
  rcases hc with rfl | rfl | rfl <;> exact cut_word rfl (by cases rest <;> rfl)

section Delimited

variable {rest : List Char}

theorem delimited_nil : Delimited [] := nofun

/-- Parentheses and commas delimit what stands before them. -/
theorem delimited_cons {c : Char} (hc : c ∈ delimiters) (rest : List Char) :
    Delimited (c :: rest) := by
  intro d hd
  obtain rfl : c = d := by simpa using hd
  exact hc

/-- No run goes on past a delimiter. -/
theorem Delimited.not_alphanum (h : Delimited rest) :
    ∀ c ∈ rest.head?, c.isDigit = false ∧ c.isAlpha = false := by
  intro c hc
  have hdelimiter := h c hc
  simp only [delimiters, List.mem_cons, List.not_mem_nil, or_false] at hdelimiter
  rcases hdelimiter with rfl | rfl | rfl <;> decide

/-- A number is one token if what follows delimits it. -/
theorem cut_digits (n : Nat) (hrest : Delimited rest) :
    Cut (IsWord .number (Nat.toDigits 10 n)) (Nat.toDigits 10 n) rest := by
  have hdigits : ∀ c ∈ Nat.toDigits 10 n, c.isDigit = true :=
    fun c hc => Nat.isDigit_of_mem_toDigits (by decide) (by decide) hc
  obtain ⟨c, word, hword⟩ := List.exists_cons_of_ne_nil (Nat.toDigits_ne_nil (n := n) (b := 10))
  rw [hword] at hdigits ⊢
  obtain ⟨hfirst, hothers⟩ := List.forall_mem_cons.mp hdigits
  exact cut_word (isBlank_of_isAlphanum (by simp [Char.isAlphanum, hfirst]))
    (Lexeme.first_digits hfirst hothers fun d hd => (hrest.not_alphanum d hd).1)

theorem cut_name {name : String} (hname : Text.isName name = true) (hrest : Delimited rest) :
    Cut (IsWord .identifier name.toList) name.toList rest := by
  obtain ⟨hsome, hletters⟩ : name.toList ≠ [] ∧ ∀ c ∈ name.toList, c.isAlpha = true := by
    simpa [Text.isName] using hname
  obtain ⟨c, word, hword⟩ := List.exists_cons_of_ne_nil hsome
  rw [hword] at hletters ⊢
  obtain ⟨hfirst, hothers⟩ := List.forall_mem_cons.mp hletters
  exact cut_word (isBlank_of_isAlphanum (by simp [Char.isAlphanum, hfirst]))
    (Lexeme.first_letters hfirst hothers fun d hd => (hrest.not_alphanum d hd).2)

/-- Operators of two characters end where they end, and operators of one character do so before a
delimiter. -/
theorem cut_comparison {op : Comparison} {sign : List Char} (hsign : sign ∈ op.spellings)
    (hrest : Delimited rest) : Cut (IsWord op.sign sign) sign rest := by
  have hdigraph (c : Char) : ∀ d ∈ rest.head?, digraph? c d = none := by
    intro d hd
    have hdelimiter := hrest d hd
    simp only [delimiters, List.mem_cons, List.not_mem_nil, or_false] at hdelimiter
    rcases hdelimiter with rfl | rfl | rfl <;> simp [digraph?]
  have hone (c : Char) : Lexeme.operator c rest = ⟨monograph c, [c], rest⟩ := by
    cases rest with
    | nil => rfl
    | cons d rest => simp [Lexeme.operator, hdigraph c d rfl]
  cases op <;> simp only [Comparison.spellings, List.mem_cons, List.not_mem_nil, or_false] at hsign
  case eq =>
    rcases hsign with rfl | rfl
    · exact cut_word rfl (hone '=')
    · exact cut_word rfl rfl
  case ne => rcases hsign with rfl | rfl <;> exact cut_word rfl rfl
  case lt =>
    subst hsign
    exact cut_word rfl (hone '<')
  case gt =>
    subst hsign
    exact cut_word rfl (hone '>')
  case le | ge =>
    subst hsign
    exact cut_word rfl rfl

theorem cut_arithmetic (op : Arithmetic) (rest : List Char) :
    Cut (IsWord op.sign op.spelling) op.spelling rest := by
  cases op <;> exact cut_word rfl (by cases rest <;> rfl)

end Delimited

end DiceLang
