import DiceLang.Proofs.Token.Munch
import DiceLang.Proofs.Verbatim

/-!
# Layout

Blanks may be put into a text wherever they do not tear apart a number, a name or an operator of two
characters (`Token.Encloses`).  Then its words say what they said before (`words_loosen`), and so the
text is read as before: `layout_irrelevant`.

A word that is not a separator ends at a blank, so it ends where it did.  A separator takes in the
blanks that are put into it or behind it; what it says is still one line break.
-/

namespace DiceLang

/-- A text with gaps put into it, where its first character has the offset `here`: the gap of an
offset goes before the character there, and the gap of the last one behind the text. -/
def loosen (gap : Nat → List Char) : (here : Nat) → List Char → List Char
  | here, [] => gap here
  | here, c :: text => gap here ++ c :: loosen gap (here + 1) text

/-- A text with a gap put in at each offset. -/
def loosened (gap : Nat → List Char) (text : String) : String :=
  String.ofList (loosen gap 0 text.toList)

/-- A number, a name or an operator of two characters. -/
def Token.IsSolid (token : Token) : Prop :=
  token.kind = .number ∨ token.kind = .identifier ∨
    (token.lexeme.toList ∈ token.kind.spellings ∧ token.lexeme.toList.length = 2)

instance (token : Token) : Decidable token.IsSolid :=
  inferInstanceAs (Decidable (_ ∨ _ ∨ _ ∧ _))

/-- An offset lies strictly inside a token that must not be torn apart. -/
def Token.Encloses (token : Token) (offset : Nat) : Prop :=
  token.IsSolid ∧ token.span.start.offset < offset ∧ offset < token.span.stop.offset

instance (token : Token) (offset : Nat) : Decidable (token.Encloses offset) :=
  inferInstanceAs (Decidable (_ ∧ _ ∧ _))

section Loosen

variable {gap : Nat → List Char} {c : Char} {word layout rest : List Char} {here : Nat}

/-- A looser text starts with the first gap, and then with what the text starts with. -/
theorem exists_loosen_eq (gap : Nat → List Char) (here : Nat) (text : List Char) :
    ∃ behind, loosen gap here text = gap here ++ behind ∧ behind.head? = text.head? := by
  cases text with
  | nil => exact ⟨[], (List.append_nil _).symm, rfl⟩
  | cons c text => exact ⟨c :: loosen gap (here + 1) text, rfl, rfl⟩

/-- A word that nothing is put into stays whole. -/
theorem loosen_word (h : ∀ i, here < i → i < here + (c :: word).length → gap i = []) :
    loosen gap here (c :: word ++ rest) =
      gap here ++ (c :: word ++ loosen gap (here + (c :: word).length) rest) := by
  induction word generalizing c here with
  | nil => rfl
  | cons d word ih =>
      have hinner : ∀ i, here + 1 < i → i < here + 1 + (d :: word).length → gap i = [] := by
        intro i hlow hhigh
        refine h i (by omega) ?_
        simp only [List.length_cons] at hhigh ⊢
        omega
      have hnone : gap (here + 1) = [] := by
        refine h (here + 1) (by omega) ?_
        simp only [List.length_cons]
        omega
      have hlength : here + 1 + (d :: word).length = here + (c :: d :: word).length := by
        simp only [List.length_cons]
        omega
      show gap here ++ c :: loosen gap (here + 1) (d :: word ++ rest) = _
      rw [ih hinner, hnone, hlength]
      rfl

/-- Layout that blanks are put into is layout. -/
theorem loosen_layout (hgap : ∀ i, ∀ c ∈ gap i, isBlank c = true)
    (hlayout : ∀ c ∈ layout, isLayout c = true) :
    ∃ wider, (∀ c ∈ wider, isLayout c = true) ∧
      loosen gap here (layout ++ rest) = wider ++ loosen gap (here + layout.length) rest := by
  induction layout generalizing here with
  | nil => exact ⟨[], nofun, rfl⟩
  | cons c layout ih =>
      obtain ⟨hfirst, hlater⟩ := List.forall_mem_cons.mp hlayout
      obtain ⟨wider, hwider, hinner⟩ := @ih (here + 1) hlater
      have hlength : here + 1 + layout.length = here + (c :: layout).length := by
        rw [List.length_cons]
        omega
      have hwiderAll : ∀ d ∈ c :: wider, isLayout d = true :=
        List.forall_mem_cons.mpr ⟨hfirst, hwider⟩
      refine ⟨gap here ++ c :: wider, ?_, ?_⟩
      · intro d hd
        rcases List.mem_append.mp hd with hd | hd
        · exact isLayout_of_isBlank (hgap here d hd)
        · exact hwiderAll d hd
      · rw [List.cons_append, loosen, hinner, hlength, List.append_assoc, List.cons_append]

end Loosen

section Words

variable {gap : Nat → List Char} {c d : Char} {chars word layout rest : List Char} {kind : Kind}

/-- A blank ends any word but a separator. -/
theorem not_goesOn_blank (hblank : isBlank d = true) (hbreak : kind ≠ .separator) :
    ¬ GoesOn kind chars d := by
  intro hmore
  have hnot : isBlank d = false := by
    cases hmore with
    | number hdigit => exact isBlank_of_isAlphanum (by simp [Char.isAlphanum, hdigit])
    | identifier hletter => exact isBlank_of_isAlphanum (by simp [Char.isAlphanum, hletter])
    | separator => exact absurd rfl hbreak
    | sign hspelt =>
        exact isBlank_eq_false (not_run_of_spelt hspelt (List.mem_append_right _ (by simp))).1
  exact Bool.false_ne_true (hnot.symm.trans hblank)

/-- A word that ends before a text ends before it with more blanks in it as well. -/
theorem Ends.loosen (h : Ends kind chars rest) (hbreak : kind ≠ .separator)
    (hgap : ∀ i, ∀ c ∈ gap i, isBlank c = true) (here : Nat) :
    Ends kind chars (DiceLang.loosen gap here rest) := by
  obtain ⟨behind, hloosen, hhead⟩ := exists_loosen_eq gap here rest
  intro d hd
  rw [hloosen] at hd
  cases hfront : gap here with
  | nil =>
      rw [hfront, List.nil_append, hhead] at hd
      exact h d hd
  | cons e more =>
      rw [hfront] at hd
      cases hd
      have hblank : isBlank d = true := hgap here d (hfront ▸ List.mem_cons_self ..)
      exact not_goesOn_blank hblank hbreak

/-- **A word ends where it did**, if nothing is put into it. -/
theorem words_loosen_word {here : Nat} (hgap : ∀ i, ∀ c ∈ gap i, isBlank c = true)
    (hshaped : Shaped kind (c :: word)) (hends : Ends kind (c :: word) rest)
    (hbreak : kind ≠ .separator)
    (hwhole : ∀ i, here < i → i < here + (c :: word).length → gap i = []) :
    words (loosen gap here (c :: word ++ rest)) =
      ⟨kind, String.ofList (c :: word), .origin, .origin⟩ ::
        words (loosen gap (here + (c :: word).length) rest) := by
  obtain ⟨hblank, hfirst⟩ :=
    Lexeme.first_of_shaped hshaped (hends.loosen hbreak hgap (here + (c :: word).length))
  rw [loosen_word hwhole, words_blanks (hgap here), List.cons_append, words_word hblank, hfirst]

/-- Blanks that a separator takes in from the next word are not missed. -/
theorem words_dropWhile_layout {front behind : List Char} (hfront : ∀ c ∈ front, isBlank c = true)
    (hbehind : ∀ c ∈ behind.head?, isLayout c = false) :
    words ((front ++ behind).dropWhile isLayout) = words (front ++ behind) := by
  rw [List.dropWhile_append_of_pos fun c hc => isLayout_of_isBlank (hfront c hc),
    words_blanks hfront]
  cases behind with
  | nil => rfl
  | cons c behind => rw [List.dropWhile_cons_of_neg (by simp [hbehind c rfl])]

/-- **A separator takes in the blanks** inside and behind it. -/
theorem words_loosen_separator {here : Nat} (hgap : ∀ i, ∀ c ∈ gap i, isBlank c = true)
    (hlayout : ∀ c ∈ layout, isLayout c = true) (hends : Ends .separator ('\n' :: layout) rest) :
    ∃ lexeme, words (loosen gap here ('\n' :: layout ++ rest)) =
      ⟨.separator, lexeme, .origin, .origin⟩ ::
        words (loosen gap (here + ('\n' :: layout).length) rest) := by
  obtain ⟨wider, hwider, hinner⟩ := @loosen_layout gap layout rest (here + 1) hgap hlayout
  have hlength : here + 1 + layout.length = here + ('\n' :: layout).length := by
    rw [List.length_cons]
    omega
  obtain ⟨behind, hloosen, hhead⟩ := exists_loosen_eq gap (here + 1 + layout.length) rest
  have hstop : ∀ c ∈ behind.head?, isLayout c = false := by
    intro c hc
    rw [hhead] at hc
    exact Bool.eq_false_iff.mpr fun hmore => hends c hc (.separator hmore)
  rw [List.cons_append, loosen, words_blanks (hgap here), hinner, words_break,
    List.dropWhile_append_of_pos hwider, hloosen, words_dropWhile_layout (hgap _) hstop, ← hloosen,
    hlength]
  exact ⟨_, rfl⟩

/-- The first word of a text and what is behind it. -/
theorem Lexeme.exists_first (hblank : isBlank c = false) (text : List Char) :
    ∃ kind word rest, text = word ++ rest ∧ first c (word ++ rest) = ⟨kind, c :: word, rest⟩ ∧
      Shaped kind (c :: word) ∧ Ends kind (c :: word) rest := by
  obtain ⟨hshaped, hends⟩ := Lexeme.first_munches hblank text
  obtain ⟨d, word, hchars⟩ := hshaped.exists_cons
  have hwhole := Lexeme.append_rest c text
  rw [hchars] at hshaped hends hwhole
  obtain ⟨rfl, htext⟩ := List.cons.inj hwhole
  have hfirst := (Lexeme.first_of_shaped hshaped hends).2
  exact ⟨_, word, _, htext.symm, hfirst, hshaped, hends⟩

/-- A word of two or more characters that is no separator is solid. -/
theorem Shaped.isSolid (h : Shaped kind chars) (hbreak : kind ≠ .separator)
    (hlong : 1 < chars.length) (span : Span) :
    (⟨kind, String.ofList chars, span⟩ : Token).IsSolid := by
  cases h with
  | number => exact .inl rfl
  | identifier => exact .inr (.inl rfl)
  | separator => exact absurd rfl hbreak
  | sign hspelt =>
      refine .inr (.inr ?_)
      rw [String.toList_ofList]
      obtain ⟨c, rfl⟩ | ⟨c, d, rfl⟩ := spelt_cases hspelt
      · exact absurd hlong (by simp)
      · exact ⟨hspelt, rfl⟩
  | illegal => exact absurd hlong (by simp)

/-- **One word.**  Blanks in front of a word, and behind or inside it where they may be, do not show in
what it says. -/
theorem words_loosen_first (hgap : ∀ i, ∀ c ∈ gap i, isBlank c = true) (here : Location)
    (hshaped : Shaped kind (c :: word)) (hends : Ends kind (c :: word) rest) {token : Token}
    (htoken : token = ⟨kind, String.ofList (c :: word), here, here.after (c :: word)⟩)
    (hwhole : ∀ i, token.Encloses i → gap i = []) :
    ∃ first, words (loosen gap here.offset (c :: word ++ rest)) =
      first :: words (loosen gap (here.after (c :: word)).offset rest) ∧
      first.content = token.content := by
  subst htoken
  rw [Location.offset_after]
  by_cases hbreak : kind = .separator
  · subst hbreak
    cases hshaped with
    | separator hlayout =>
        obtain ⟨lexeme, hwords⟩ := words_loosen_separator hgap hlayout hends
        exact ⟨_, hwords, rfl⟩
    | sign hspelt => cases hspelt
  · have htight : ∀ i, here.offset < i → i < here.offset + (c :: word).length → gap i = [] := by
      intro i hlow hhigh
      refine hwhole i ⟨hshaped.isSolid hbreak (by omega) _, hlow, ?_⟩
      show i < (here.after (c :: word)).offset
      rw [Location.offset_after]
      exact hhigh
    exact ⟨_, words_loosen_word hgap hshaped hends hbreak htight, rfl⟩

/-- **All words.**  Blanks between words do not show in what the words say. -/
theorem words_loosen (hgap : ∀ i, ∀ c ∈ gap i, isBlank c = true) (here : Location)
    (text : List Char)
    (hwhole : ∀ token ∈ (⟨here, text⟩ : Scanner).tokens, ∀ i, token.Encloses i → gap i = []) :
    (words (loosen gap here.offset text)).map Token.content =
      (⟨here, text⟩ : Scanner).tokens.map Token.content := by
  fun_induction words text generalizing here with
  | case1 =>
      rw [Scanner.tokens_nil, loosen, ← List.append_nil (gap _), words_blanks (hgap _), words]
      rfl
  | case2 c text hblank ih =>
      rw [Scanner.tokens_blank hblank] at hwhole ⊢
      rw [loosen, words_blanks (hgap _), words_blank hblank, ← Location.offset_step here c]
      exact ih _ hwhole
  | case3 c text hblank ih =>
      rw [Bool.not_eq_true] at hblank
      obtain ⟨kind, word, rest, rfl, hfirst, hshaped, hends⟩ := Lexeme.exists_first hblank text
      rw [hfirst] at ih
      have htokens := Scanner.tokens_word hblank hfirst here
      rw [← List.cons_append, htokens] at hwhole ⊢
      obtain ⟨hword, hlater⟩ := List.forall_mem_cons.mp hwhole
      obtain ⟨first, hwords, hcontent⟩ := words_loosen_first hgap here hshaped hends rfl hword
      rw [hwords, List.map_cons, List.map_cons, hcontent, ih _ hlater]

end Words

/-- The tokens of a loosened text say the same. -/
theorem verbatim_loosened {gap : Nat → List Char} {text : String}
    (hgap : ∀ i, ∀ c ∈ gap i, isBlank c = true)
    (hwhole : ∀ token ∈ tokenize text, ∀ i, token.Encloses i → gap i = []) :
    Verbatim (tokenize text) (tokenize (loosened gap text)) := by
  unfold Verbatim
  rw [map_tokenize fun token => rfl, loosened, String.toList_ofList]
  exact words_loosen hgap .origin text.toList hwhole

/-- **Layout is irrelevant.**  Put blanks into a text at any offsets that are not strictly inside a
number, a name or an operator of two characters.  Its tokens have the same kinds and values as before,
and as a line it is read as the same tree but for spans, or refused with the same code and message. -/
theorem layout_irrelevant (text : String) (gap : Nat → List Char)
    (hgap : ∀ i, ∀ c ∈ gap i, isBlank c = true)
    (hwhole : ∀ i, gap i ≠ [] → ∀ token ∈ tokenize text, ¬ token.Encloses i) :
    (tokenize (loosened gap text)).map Token.content = (tokenize text).map Token.content ∧
      Agree (fun line other => line.toTree.Same other.toTree) (Line.parse text)
        (Line.parse (loosened gap text)) := by
  have hverbatim : Verbatim (tokenize text) (tokenize (loosened gap text)) := by
    refine verbatim_loosened hgap ?_
    intro token htoken i hinside
    by_contra hsome
    exact hwhole i hsome token htoken hinside
  exact ⟨hverbatim, Line.parse_agree hverbatim⟩

/-- Some room in `go=>1D6` with a line break at its end. -/
def roomyGaps : Nat → List Char
  | 2 => [' ']
  | 4 => ['\t', ' ']
  | 7 => ['\r']
  | 8 => [' ']
  | _ => []

/-- Room around an arrow and around a line break. -/
theorem layout_irrelevant_roomy :
    loosened roomyGaps "go=>1D6\n" = "go =>\t 1D6\r\n " ∧
    (tokenize "go =>\t 1D6\r\n ").map Token.content = (tokenize "go=>1D6\n").map Token.content ∧
    Agree (fun line other => line.toTree.Same other.toTree) (Line.parse "go=>1D6\n")
      (Line.parse "go =>\t 1D6\r\n ") := by
  have hroomy : loosened roomyGaps "go=>1D6\n" = "go =>\t 1D6\r\n " := by decide +kernel
  have hgap : ∀ i, ∀ c ∈ roomyGaps i, isBlank c = true := by
    intro i
    unfold roomyGaps
    split <;> simp [isBlank]
  have hwhole : ∀ i, roomyGaps i ≠ [] → ∀ token ∈ tokenize "go=>1D6\n", ¬ token.Encloses i := by
    intro i hsome
    have hplace : i = 2 ∨ i = 4 ∨ i = 7 ∨ i = 8 := by
      unfold roomyGaps at hsome
      split at hsome <;> simp_all
    rcases hplace with rfl | rfl | rfl | rfl <;> decide +kernel
  rw [← hroomy]
  exact ⟨rfl, layout_irrelevant "go=>1D6\n" roomyGaps hgap hwhole⟩

end DiceLang
