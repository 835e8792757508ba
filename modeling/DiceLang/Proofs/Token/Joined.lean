import DiceLang.Proofs.Token.Scan

/-!
# Texts joined by a line break

The words of a text do not depend on where it stands (`map_bare_tokens`), and a word never goes on
across a line break, unless it is itself a separator.  So when two texts are joined by a newline, the
words of the first are followed by those of the second, with a separator between them.

That separator takes in whatever layout there is around the newline.  The last separator of the first
text is lost in it, and so is one at the start of the second.  `words_joined` says what remains.
-/

namespace DiceLang

/-- A token without its place. -/
def Token.bare (token : Token) : Token := ⟨token.kind, token.lexeme, .origin, .origin⟩

/-- The words of a text, as tokens without a place. -/
def words : List Char → List Token
  | [] => [⟨.eof, "", .origin, .origin⟩]
  | c :: text =>
    if isBlank c then words text
    else
      ⟨(Lexeme.first c text).kind, String.ofList (Lexeme.first c text).chars, .origin, .origin⟩ ::
        words (Lexeme.first c text).rest
termination_by text => text.length
decreasing_by
  · exact Nat.lt_succ_self _
  · exact Lexeme.rest_length_lt c text

section Words

variable {c : Char} {text : List Char}

/-- A blank in front of a text does not change its words. -/
theorem words_blank (h : isBlank c = true) : words (c :: text) = words text := by
  rw [words, if_pos h]

/-- Anything else starts the first of them. -/
theorem words_word (h : isBlank c = false) : words (c :: text) =
    ⟨(Lexeme.first c text).kind, String.ofList (Lexeme.first c text).chars, .origin, .origin⟩ ::
      words (Lexeme.first c text).rest := by
  rw [words, if_neg (by simp [h])]

/-- A blank is gone over before the first token is cut off. -/
theorem Scanner.tokens_blank (h : isBlank c = true) (here : Location) :
    (⟨here, c :: text⟩ : Scanner).tokens = (⟨here.step c, text⟩ : Scanner).tokens := by
  have hsame : (⟨here, c :: text⟩ : Scanner).next = (⟨here.step c, text⟩ : Scanner).next := by
    simp [next, h]
  cases hnext : (⟨here.step c, text⟩ : Scanner).next with
  | mk token after => rw [tokens_eq (hsame.trans hnext), tokens_eq hnext]

/-- **Where a text stands has no part in how it is cut.** -/
theorem map_bare_tokens (here : Location) (text : List Char) :
    (⟨here, text⟩ : Scanner).tokens.map Token.bare = words text := by
  fun_induction words text generalizing here with
  | case1 =>
      rw [Scanner.tokens_nil]
      rfl
  | case2 c text hblank ih =>
      rw [Scanner.tokens_blank hblank]
      exact ih _
  | case3 c text hblank ih =>
      let lexeme := Lexeme.first c text
      let stop := here.after lexeme.chars
      have hnext : (⟨here, c :: text⟩ : Scanner).next =
          (⟨lexeme.kind, String.ofList lexeme.chars, here, stop⟩, ⟨stop, lexeme.rest⟩) := by
        simp [Scanner.next, hblank, lexeme, stop]
      rw [Scanner.tokens_eq hnext, if_neg (Lexeme.kind_ne_eof c text), List.map_cons, ih]
      rfl

/-- Without their places the tokens of a text are its words. -/
theorem map_bare_tokenize (text : String) : (tokenize text).map Token.bare = words text.toList :=
  map_bare_tokens .origin text.toList

/-- What does not depend on places can be told from the words. -/
theorem map_tokenize {α : Type} {view : Token → α} (h : ∀ token, view token.bare = view token)
    (text : String) : (tokenize text).map view = (words text.toList).map view := by
  rw [← map_bare_tokenize, List.map_map]
  exact List.map_congr_left fun token _ => (h token).symm

/-- The words of a text are followed by the end token. -/
theorem exists_words_eq (text : List Char) :
    ∃ body, words text = body ++ [⟨.eof, "", .origin, .origin⟩] := by
  fun_induction words text with
  | case1 => exact ⟨[], rfl⟩
  | case2 c text hblank ih => exact ih
  | case3 c text hblank ih =>
      obtain ⟨body, hbody⟩ := ih
      exact ⟨_ :: body, by rw [hbody, List.cons_append]⟩

end Words

section Breaks

variable {c : Char} {a b : List Char}

/-- The word at the front of a text, with more text behind it. -/
def Lexeme.before (lexeme : Lexeme) (more : List Char) : Lexeme :=
  { lexeme with rest := lexeme.rest ++ more }

/-- A run that ends within a text, or that does not go on behind it, ends where it did. -/
theorem Lexeme.run_before (kind : Kind) {p : Char → Bool}
    (h : p '\n' = false ∨ a.dropWhile p ≠ []) :
    run kind p c (a ++ '\n' :: b) = (run kind p c a).before ('\n' :: b) := by
  have hword : ∀ d ∈ a.takeWhile p, p d = true := fun d => List.mem_takeWhile_imp
  have hrest : ∀ d ∈ (a.dropWhile p ++ '\n' :: b).head?, p d = false := by
    intro d hd
    cases hdrop : a.dropWhile p with
    | nil =>
        rw [hdrop] at hd
        cases hd
        exact h.resolve_right fun hsome => hsome hdrop
    | cons e rest =>
        rw [hdrop] at hd
        cases hd
        have hhead := List.head?_dropWhile_not p a
        rwa [hdrop] at hhead
  have hsplit : a ++ '\n' :: b = a.takeWhile p ++ (a.dropWhile p ++ '\n' :: b) := by
    rw [← List.append_assoc, List.takeWhile_append_dropWhile]
  rw [hsplit, run_append kind hword hrest]
  rfl

/-- No sign ends in a newline. -/
theorem digraph?_break (c : Char) : digraph? c '\n' = none := by
  simp [digraph?]

/-- A newline behind a sign is no part of it. -/
theorem Lexeme.operator_before :
    operator c (a ++ '\n' :: b) = (operator c a).before ('\n' :: b) := by
  cases a with
  | nil => simp only [List.nil_append, operator, digraph?_break, before]
  | cons d a =>
      rw [List.cons_append, operator, operator]
      cases digraph? c d <;> rfl

/-- **No word goes on across a line break**, unless it starts with one. -/
theorem Lexeme.first_before (h : c ≠ '\n') :
    first c (a ++ '\n' :: b) = (first c a).before ('\n' :: b) := by
  unfold first
  rw [if_neg h, if_neg h]
  split
  · exact run_before .number (.inl rfl)
  · split
    · exact run_before .identifier (.inl rfl)
    · exact operator_before

/-- A newline and the layout behind it are one word. -/
theorem words_break (text : List Char) : words ('\n' :: text) =
    ⟨.separator, String.ofList ('\n' :: text.takeWhile isLayout), .origin, .origin⟩ ::
      words (text.dropWhile isLayout) :=
  words_word rfl

/-- What stands at the start of a text besides words is at most a separator. -/
theorem words_layout (text : List Char) :
    ∃ gap, (∀ token ∈ gap, token.kind = .separator) ∧
      words text = gap ++ words (text.dropWhile isLayout) := by
  fun_induction words text with
  | case1 => exact ⟨[], nofun, by rw [List.dropWhile_nil, words, List.nil_append]⟩
  | case2 c text hblank ih =>
      rw [List.dropWhile_cons_of_pos (by simp [isLayout, hblank])]
      exact ih
  | case3 c text hblank =>
      by_cases hbreak : c = '\n'
      · subst hbreak
        exact ⟨[_], List.forall_mem_singleton.mpr rfl, rfl⟩
      · have hword : (c :: text).dropWhile isLayout = c :: text :=
          List.dropWhile_cons_of_neg (by simp [isLayout, hblank, hbreak])
        rw [hword, words_word (by simpa using hblank)]
        exact ⟨[], nofun, rfl⟩

/-- Three lists of tokens, each with its end token, of which the last is the first two with a line
break between them.  It need not have the line breaks next to that one which the others have. -/
inductive Joined : (first second both : List Token) → Prop
  | intro {front gap back behind : List Token} {stop sep last : Token}
      (hstop : stop.kind = .eof)
      (hgap : ∀ token ∈ gap, token.kind = .separator)
      (hsep : sep.kind = .separator)
      (hbehind : ∀ token ∈ behind, token.kind = .separator)
      (hlast : last.kind = .eof) :
      Joined (front ++ (gap ++ [stop])) (behind ++ (back ++ [last]))
        (front ++ sep :: (back ++ [last]))

/-- The first of two texts may have a further token in front. -/
theorem Joined.cons {first second both : List Token} (h : Joined first second both)
    (token : Token) : Joined (token :: first) second (token :: both) := by
  obtain @⟨front, gap, back, behind, stop, sep, last, hstop, hgap, hsep, hbehind, hlast⟩ := h
  show Joined ((token :: front) ++ (gap ++ [stop])) _ ((token :: front) ++ sep :: (back ++ [last]))
  exact .intro hstop hgap hsep hbehind hlast

/-- A text of nothing but layout, in front of another. -/
theorem joined_layout {stop sep : Token} {gap : List Token} (hstop : stop.kind = .eof)
    (hgap : ∀ token ∈ gap, token.kind = .separator) (hsep : sep.kind = .separator)
    (text : List Char) :
    Joined (gap ++ [stop]) (words text) (sep :: words (text.dropWhile isLayout)) := by
  obtain ⟨behind, hbehind, hwords⟩ := words_layout text
  obtain ⟨back, hback⟩ := exists_words_eq (text.dropWhile isLayout)
  rw [hwords, hback]
  show Joined ([] ++ (gap ++ [stop])) _ ([] ++ sep :: (back ++ [_]))
  exact .intro hstop hgap hsep hbehind rfl

/-- **Texts joined by a line break.**  Their words are joined by one, and by one only. -/
theorem words_joined (a b : List Char) : Joined (words a) (words b) (words (a ++ '\n' :: b)) := by
  fun_induction words a with
  | case1 =>
      have hnone : ∀ token ∈ ([] : List Token), token.kind = .separator := nofun
      rw [List.nil_append, words_break, ← List.nil_append [_]]
      exact joined_layout rfl hnone rfl b
  | case2 c a hblank ih =>
      rw [List.cons_append, words_blank hblank]
      exact ih
  | case3 c a hblank ih =>
      rw [List.cons_append]
      by_cases hlayout : c = '\n' ∧ a.dropWhile isLayout = []
      · obtain ⟨rfl, hnone⟩ := hlayout
        have hdrop : (a ++ '\n' :: b).dropWhile isLayout = b.dropWhile isLayout := by
          simp [List.dropWhile_append, hnone, isLayout]
        have hlast : words (Lexeme.first '\n' a).rest = [⟨.eof, "", .origin, .origin⟩] := by
          show words (a.dropWhile isLayout) = _
          rw [hnone, words]
        rw [hlast, words_break, hdrop, ← List.singleton_append]
        exact joined_layout rfl (List.forall_mem_singleton.mpr rfl) rfl b
      · have hbefore : Lexeme.first c (a ++ '\n' :: b) = (Lexeme.first c a).before ('\n' :: b) := by
          by_cases hbreak : c = '\n'
          · subst hbreak
            exact Lexeme.run_before .separator (.inr fun hnone => hlayout ⟨rfl, hnone⟩)
          · exact Lexeme.first_before hbreak
        rw [words_word (by simpa using hblank), hbefore]
        exact ih.cons _

end Breaks

end DiceLang
