import DiceLang.Text.Decimal
import DiceLang.Token.Scan
import Mathlib.Data.List.Infix
import Mathlib.Data.List.TakeWhile

/-!
# Where tokens come from

`mem_tokenize` traces a token back to the place of the text where its lexeme was cut.  What a token
says about the text around it follows from the cut alone: an arrow, for one, is only cut where there
is an equals sign, so there is none in an empty line.
-/

namespace DiceLang

namespace Scanner

/-- The tokens of a text are the first one, and those of what is left unless that was the end. -/
theorem tokens_eq {scanner after : Scanner} {token : Token} (h : scanner.next = (token, after)) :
    scanner.tokens = if token.kind = .eof then [token] else token :: after.tokens := by
  rw [tokens]
  split
  next first later hnext =>
    obtain ⟨rfl, rfl⟩ := Prod.mk.inj (hnext.symm.trans h)
    rfl

theorem tokens_nil (location : Location) :
    (⟨location, []⟩ : Scanner).tokens = [⟨.eof, "", location, location⟩] := by
  have hnext : (⟨location, []⟩ : Scanner).next =
      (⟨.eof, "", location, location⟩, ⟨location, []⟩) := rfl
  rw [tokens_eq hnext, if_pos rfl]

/-- What a step of a scanner comes to: the end token if only blanks are ahead, and otherwise the
word behind the blanks. -/
theorem next_cases {scanner after : Scanner} {token : Token} (h : scanner.next = (token, after)) :
    token.kind = .eof ∨ ∃ c text, (c :: text) <:+ scanner.ahead ∧
      token.kind = (Lexeme.first c text).kind ∧
      token.lexeme = String.ofList (Lexeme.first c text).chars ∧
      after.ahead = (Lexeme.first c text).rest := by
  unfold next at h
  split at h
  · cases h
    exact .inl rfl
  · next c text hahead =>
      cases h
      exact .inr ⟨c, text, hahead ▸ List.dropWhile_suffix _, rfl, rfl, rfl⟩

/-- A token is the end token, or it was cut off as the word at some place of the text ahead. -/
theorem mem_tokens {scanner : Scanner} {token : Token} (h : token ∈ scanner.tokens) :
    token.kind = .eof ∨ ∃ c text, (c :: text) <:+ scanner.ahead ∧
      token.kind = (Lexeme.first c text).kind ∧
      token.lexeme = String.ofList (Lexeme.first c text).chars := by
  induction scanner using tokens.induct with
  | case1 scanner first after hnext hfirst =>
      rw [tokens_eq hnext, if_pos hfirst, List.mem_singleton] at h
      exact .inl (h ▸ hfirst)
  | case2 scanner first after hnext hfirst hshorter ih =>
      obtain heof | ⟨c, text, hcut, hkind, hlexeme, hafter⟩ := next_cases hnext
      · exact absurd heof hfirst
      rw [tokens_eq hnext, if_neg hfirst, List.mem_cons] at h
      rcases h with rfl | h
      · exact .inr ⟨c, text, hcut, hkind, hlexeme⟩
      · obtain heof | ⟨d, rest, hlater, hword⟩ := ih h
        · exact .inl heof
        · have hrest : (Lexeme.first c text).rest <:+ c :: text :=
            ⟨_, Lexeme.append_rest c text⟩
          rw [hafter] at hlater
          exact .inr ⟨d, rest, hlater.trans (hrest.trans hcut), hword⟩

end Scanner

/-- **Where a token comes from.**  A token of a text is the end token, or it was cut off as the word
at some place of the text. -/
theorem mem_tokenize {text : String} {token : Token} (h : token ∈ tokenize text) :
    token.kind = .eof ∨ ∃ c rest, (c :: rest) <:+ text.toList ∧
      token.kind = (Lexeme.first c rest).kind ∧
      token.lexeme = String.ofList (Lexeme.first c rest).chars :=
  Scanner.mem_tokens h

/-- The kinds of the words that are neither runs nor the end. -/
def operatorKinds : List Kind :=
  [.plus, .minus, .star, .slash, .eq, .ne, .lt, .le, .gt, .ge, .lparen, .rparen, .comma, .quote,
    .arrow, .illegal]

/-- A sign is of one of the kinds of signs, or illegal. -/
theorem Lexeme.operator_kind (c : Char) (text : List Char) :
    (operator c text).kind ∈ operatorKinds := by
  have hmonograph : monograph c ∈ operatorKinds := by
    unfold monograph
    split <;> decide
  unfold operator
  split
  · exact hmonograph
  · split
    · next kind hdigraph =>
        show kind ∈ operatorKinds
        unfold digraph? at hdigraph
        split at hdigraph <;> cases hdigraph <;> decide
    · exact hmonograph

/-- What a word can be: a separator, a number or a name, each a run of its own characters, or an
operator. -/
theorem Lexeme.first_cases (c : Char) (text : List Char) :
    (c = '\n' ∧ first c text = run .separator isLayout c text) ∨
    (c.isDigit = true ∧ first c text = run .number Char.isDigit c text) ∨
    (c.isAlpha = true ∧ first c text = run .identifier Char.isAlpha c text) ∨
    (first c text = operator c text ∧ (first c text).kind ∈ operatorKinds) := by
  unfold first
  by_cases hbreak : c = '\n'
  · exact .inl ⟨hbreak, if_pos hbreak⟩
  · rw [if_neg hbreak]
    by_cases hdigit : c.isDigit = true
    · exact .inr (.inl ⟨hdigit, if_pos hdigit⟩)
    · rw [if_neg hdigit]
      by_cases halpha : c.isAlpha = true
      · exact .inr (.inr (.inl ⟨halpha, if_pos halpha⟩))
      · rw [if_neg halpha]
        exact .inr (.inr (.inr ⟨rfl, operator_kind c text⟩))

/-- No word is the end. -/
theorem Lexeme.kind_ne_eof (c : Char) (text : List Char) : (Lexeme.first c text).kind ≠ .eof := by
  intro heof
  rcases Lexeme.first_cases c text with ⟨-, h⟩ | ⟨-, h⟩ | ⟨-, h⟩ | ⟨-, hkind⟩
  · rw [h] at heof
    cases heof
  · rw [h] at heof
    cases heof
  · rw [h] at heof
    cases heof
  · rw [heof] at hkind
    exact absurd hkind (by decide)

/-- A word at the very front of a text is its first token. -/
theorem Scanner.tokens_word {c : Char} {word rest : List Char} {kind : Kind}
    (hblank : isBlank c = false) (hword : Lexeme.first c (word ++ rest) = ⟨kind, c :: word, rest⟩)
    (here : Location) : (⟨here, c :: word ++ rest⟩ : Scanner).tokens =
      ⟨kind, String.ofList (c :: word), here, here.after (c :: word)⟩ ::
        (⟨here.after (c :: word), rest⟩ : Scanner).tokens := by
  have hnext : (⟨here, c :: word ++ rest⟩ : Scanner).next =
      (⟨kind, String.ofList (c :: word), here, here.after (c :: word)⟩,
        ⟨here.after (c :: word), rest⟩) := by
    simp [next, hblank, hword]
  have hmore : kind ≠ .eof := by
    have hkind := Lexeme.kind_ne_eof c (word ++ rest)
    rwa [hword] at hkind
  rw [tokens_eq hnext, if_neg hmore]

theorem isBlank_of_isAlphanum {c : Char} (h : c.isAlphanum = true) : isBlank c = false := by
  cases hblank : isBlank c with
  | false => rfl
  | true =>
      simp only [isBlank, Bool.or_eq_true, beq_iff_eq] at hblank
      rcases hblank with (rfl | rfl) | rfl <;> cases h

namespace Lexeme

variable {c : Char} {word rest : List Char}

/-- A run goes on up to the first character that is not admitted. -/
theorem run_append {p : Char → Bool} (kind : Kind) (hword : ∀ d ∈ word, p d = true)
    (hrest : ∀ d ∈ rest.head?, p d = false) :
    run kind p c (word ++ rest) = ⟨kind, c :: word, rest⟩ := by
  have hstop : rest.takeWhile p = [] ∧ rest.dropWhile p = rest := by
    cases rest with
    | nil => exact ⟨rfl, rfl⟩
    | cons d rest => simp [hrest d rfl]
  rw [run, List.takeWhile_append_of_pos hword, List.dropWhile_append_of_pos hword, hstop.1, hstop.2,
    List.append_nil]

/-- A run of digits is a number. -/
theorem first_digits (hfirst : c.isDigit = true) (hword : ∀ d ∈ word, d.isDigit = true)
    (hrest : ∀ d ∈ rest.head?, d.isDigit = false) :
    first c (word ++ rest) = ⟨.number, c :: word, rest⟩ := by
  have hbreak : c ≠ '\n' := by
    rintro rfl
    cases hfirst
  rw [first, if_neg hbreak, if_pos hfirst, run_append .number hword hrest]

/-- A run of letters is a name. -/
theorem first_letters (hfirst : c.isAlpha = true) (hword : ∀ d ∈ word, d.isAlpha = true)
    (hrest : ∀ d ∈ rest.head?, d.isAlpha = false) :
    first c (word ++ rest) = ⟨.identifier, c :: word, rest⟩ := by
  have hbreak : c ≠ '\n' := by
    rintro rfl
    cases hfirst
  have hdigit : ¬ c.isDigit = true := by
    intro hdigit
    have hhigh : c.val ≤ '9'.val := of_decide_eq_true (Bool.and_eq_true_iff.mp hdigit).2
    rcases Bool.or_eq_true_iff.mp hfirst with hupper | hlower
    · have hlow : 'A'.val ≤ c.val := (of_decide_eq_true hupper).1
      exact absurd (UInt32.le_trans hlow hhigh) (by decide)
    · have hlow : 'a'.val ≤ c.val := of_decide_eq_true (Bool.and_eq_true_iff.mp hlower).1
      exact absurd (UInt32.le_trans hlow hhigh) (by decide)
  rw [first, if_neg hbreak, if_neg hdigit, if_pos hfirst, run_append .identifier hword hrest]

end Lexeme

/-- A run of digits is one numeral. -/
theorem tokenize_digits {text : String} (hsome : text.toList ≠ [])
    (hdigits : ∀ c ∈ text.toList, c.isDigit = true) :
    ∃ stop : Location, tokenize text =
      [⟨.number, text, .origin, stop⟩, ⟨.eof, "", stop, stop⟩] := by
  obtain ⟨c, word, htext⟩ := List.exists_cons_of_ne_nil hsome
  rw [htext] at hdigits
  obtain ⟨hfirst, hword⟩ := List.forall_mem_cons.mp hdigits
  have hblank : isBlank c = false := isBlank_of_isAlphanum (by simp [Char.isAlphanum, hfirst])
  have hlexeme : Lexeme.first c (word ++ []) = ⟨.number, c :: word, []⟩ :=
    Lexeme.first_digits hfirst hword nofun
  have htokens := Scanner.tokens_word hblank hlexeme .origin
  rw [List.append_nil, ← htext, String.ofList_toList, Scanner.tokens_nil] at htokens
  exact ⟨_, htokens⟩

/-- An arrow starts with an equality sign. -/
theorem Lexeme.eq_of_first_arrow {c : Char} {text : List Char}
    (h : (Lexeme.first c text).kind = .arrow) : c = '=' := by
  have hmonograph : ∀ d, monograph d ≠ .arrow := by
    intro d
    unfold monograph
    split <;> decide
  unfold first at h
  split at h
  · cases h
  · split at h
    · cases h
    · split at h
      · cases h
      · unfold operator at h
        split at h
        · exact absurd h (hmonograph c)
        · split at h
          · next d rest kind hdigraph =>
              cases h
              unfold digraph? at hdigraph
              split at hdigraph <;> first | rfl | cases hdigraph
          · exact absurd h (hmonograph c)

/-- There is no arrow in an empty line. -/
theorem kind_ne_arrow_of_isEmptyLine {text : String} (hempty : Text.isEmptyLine text = true)
    {token : Token} (h : token ∈ tokenize text) : token.kind ≠ .arrow := by
  intro harrow
  obtain heof | ⟨c, rest, hcut, hkind, -⟩ := mem_tokenize h
  · cases harrow.symm.trans heof
  · obtain rfl := Lexeme.eq_of_first_arrow (hkind.symm.trans harrow)
    have hmem : '=' ∈ text.toList := hcut.subset (List.mem_cons_self ..)
    have hspace : Text.isSpace '=' = true := List.all_eq_true.mp hempty _ hmem
    revert hspace
    decide

end DiceLang
