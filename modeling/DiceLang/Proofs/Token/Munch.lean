import DiceLang.Proofs.Token.Joined

/-!
# Maximal munch

How a text is to be cut can be said without cutting it.  `Munches text words` says that a text is made
up of words with blanks around them, that each word has the shape of its kind (`Shaped`), and that no
word could go on with the character that follows it (`GoesOn`).

Texts such as `=>=` or `!==` can be taken apart into words in several ways, but only one of them leaves
no word that could go on.  `tokenize_munches` says that every text has exactly one such decomposition,
and that it is what the text is cut into.  The two directions come from the first word: where blanks
are out of the way, `Lexeme.first` finds a word of the right shape that cannot go on
(`Lexeme.first_munches`), and a word of this kind is what it finds (`Lexeme.first_of_shaped`).
-/

namespace DiceLang

/-- How operators and marks are spelt. -/
def Kind.spellings : Kind → List (List Char)
  | plus => [['+']]
  | minus => [['-']]
  | star => [['*']]
  | slash => [['/']]
  | eq => [['='], ['=', '=']]
  | ne => [['!', '='], ['<', '>']]
  | lt => [['<']]
  | le => [['<', '=']]
  | gt => [['>']]
  | ge => [['>', '=']]
  | lparen => [['(']]
  | rparen => [[')']]
  | comma => [[',']]
  | quote => [['"']]
  | arrow => [['=', '>']]
  | number | identifier | separator | illegal | eof => []

/-- The characters are a word of the given kind. -/
inductive Shaped : Kind → List Char → Prop
  | number {chars : List Char} (hsome : chars ≠ []) (hdigits : ∀ c ∈ chars, c.isDigit = true) :
      Shaped .number chars
  | identifier {chars : List Char} (hsome : chars ≠ []) (hletters : ∀ c ∈ chars, c.isAlpha = true) :
      Shaped .identifier chars
  | separator {layout : List Char} (hlayout : ∀ c ∈ layout, isLayout c = true) :
      Shaped .separator ('\n' :: layout)
  | sign {kind : Kind} {chars : List Char} (hspelt : chars ∈ kind.spellings) : Shaped kind chars
  /-- Any other character that is not a blank. -/
  | illegal {c : Char} (hlayout : isLayout c = false) (hdigit : c.isDigit = false)
      (hletter : c.isAlpha = false) (hsign : ∀ kind : Kind, [c] ∉ kind.spellings) :
      Shaped .illegal [c]

/-- A word of the given kind could go on with a character that follows it. -/
inductive GoesOn : Kind → List Char → Char → Prop
  | number {chars : List Char} {c : Char} (hdigit : c.isDigit = true) : GoesOn .number chars c
  | identifier {chars : List Char} {c : Char} (hletter : c.isAlpha = true) :
      GoesOn .identifier chars c
  | separator {chars : List Char} {c : Char} (hlayout : isLayout c = true) :
      GoesOn .separator chars c
  /-- The two make up a longer sign. -/
  | sign {kind longer : Kind} {chars : List Char} {c : Char}
      (hspelt : chars ++ [c] ∈ longer.spellings) : GoesOn kind chars c

/-- A word of the given kind ends where the rest of the text begins. -/
def Ends (kind : Kind) (chars rest : List Char) : Prop :=
  ∀ c ∈ rest.head?, ¬ GoesOn kind chars c

/-- A text is made up of words, with blanks before, between and after them, and no word could go on
with what follows it. -/
inductive Munches : List Char → List (Kind × List Char) → Prop
  | done {gap : List Char} (hgap : ∀ c ∈ gap, isBlank c = true) : Munches gap []
  | word {gap chars rest : List Char} {kind : Kind} {words : List (Kind × List Char)}
      (hgap : ∀ c ∈ gap, isBlank c = true) (hshaped : Shaped kind chars)
      (hends : Ends kind chars rest) (hrest : Munches rest words) :
      Munches (gap ++ (chars ++ rest)) ((kind, chars) :: words)

section Signs

variable {c d : Char} {chars rest : List Char} {kind : Kind}

/-- The kind of a sign, by the tables that texts are cut by. -/
def signOf? : List Char → Option Kind
  | [c] => some (monograph c)
  | [c, d] => digraph? c d
  | _ => none

/-- A spelling belongs to one kind only. -/
theorem signOf?_of_spelt (h : chars ∈ kind.spellings) : signOf? chars = some kind := by
  have hall : ∀ chars ∈ kind.spellings, signOf? chars = some kind := by
    cases kind <;> decide
  exact hall chars h

/-- A sign has one character or two. -/
theorem spelt_cases (h : chars ∈ kind.spellings) :
    (∃ c, chars = [c]) ∨ ∃ c d, chars = [c, d] := by
  have hsign := signOf?_of_spelt h
  unfold signOf? at hsign
  split at hsign
  · exact .inl ⟨_, rfl⟩
  · exact .inr ⟨_, _, rfl⟩
  · cases hsign

/-- No character of a sign belongs to a run. -/
theorem not_run_of_spelt (h : chars ∈ kind.spellings) (hc : c ∈ chars) :
    isLayout c = false ∧ c.isDigit = false ∧ c.isAlpha = false := by
  have hall : (kind.spellings.all fun chars => chars.all fun c =>
      !isLayout c && !c.isDigit && !c.isAlpha) = true := by
    cases kind <;> decide
  have hc := List.all_eq_true.mp (List.all_eq_true.mp hall chars h) c hc
  simpa [and_assoc] using hc

/-- Two characters that make a sign are a spelling of it. -/
theorem spelt_of_digraph? (h : digraph? c d = some kind) : [c, d] ∈ kind.spellings := by
  unfold digraph? at h
  split at h <;> cases h <;> decide

theorem spelt_of_monograph (h : monograph c ≠ .illegal) : [c] ∈ (monograph c).spellings := by
  revert h
  unfold monograph
  split <;> simp [Kind.spellings]

/-- One character that spells nothing is illegal. -/
theorem monograph_of_not_spelt (h : ∀ kind : Kind, [c] ∉ kind.spellings) :
    monograph c = .illegal := by
  by_contra hsign
  exact h _ (spelt_of_monograph hsign)

/-- A character that makes up no sign with the next one stands alone. -/
theorem Lexeme.operator_alone (h : ∀ d ∈ rest.head?, ∀ kind : Kind, [c, d] ∉ kind.spellings) :
    operator c rest = ⟨monograph c, [c], rest⟩ := by
  cases rest with
  | nil => rfl
  | cons d rest =>
      have hnone : digraph? c d = none := by
        cases hdigraph : digraph? c d with
        | none => rfl
        | some kind => exact absurd (spelt_of_digraph? hdigraph) (h d rfl kind)
      rw [operator, hnone]

end Signs

section First

variable {c d : Char} {word rest text : List Char} {kind : Kind}

/-- What is neither layout nor a digit nor a letter starts a sign. -/
theorem Lexeme.first_of_operator (hlayout : isLayout c = false) (hdigit : c.isDigit = false)
    (hletter : c.isAlpha = false) : first c text = operator c text := by
  have hbreak : c ≠ '\n' := by
    rintro rfl
    cases hlayout
  unfold first
  rw [if_neg hbreak, if_neg (by simp [hdigit]), if_neg (by simp [hletter])]

theorem isLayout_of_isBlank (h : isBlank c = true) : isLayout c = true :=
  Bool.or_eq_true_iff.mpr (.inr h)

theorem isBlank_eq_false (h : isLayout c = false) : isBlank c = false :=
  Bool.eq_false_iff.mpr fun hblank => Bool.false_ne_true (h.symm.trans (isLayout_of_isBlank hblank))

/-- **A word that cannot go on is what is cut off first.** -/
theorem Lexeme.first_of_shaped (hshaped : Shaped kind (c :: word)) (hends : Ends kind (c :: word) rest) :
    isBlank c = false ∧ first c (word ++ rest) = ⟨kind, c :: word, rest⟩ := by
  cases hshaped with
  | number hsome hdigits =>
      obtain ⟨hfirst, hword⟩ := List.forall_mem_cons.mp hdigits
      have hrest : ∀ d ∈ rest.head?, d.isDigit = false := by
        intro d hd
        exact Bool.eq_false_iff.mpr fun hdigit => hends d hd (.number hdigit)
      exact ⟨isBlank_of_isAlphanum (by simp [Char.isAlphanum, hfirst]),
        first_digits hfirst hword hrest⟩
  | identifier hsome hletters =>
      obtain ⟨hfirst, hword⟩ := List.forall_mem_cons.mp hletters
      have hrest : ∀ d ∈ rest.head?, d.isAlpha = false := by
        intro d hd
        exact Bool.eq_false_iff.mpr fun hletter => hends d hd (.identifier hletter)
      exact ⟨isBlank_of_isAlphanum (by simp [Char.isAlphanum, hfirst]),
        first_letters hfirst hword hrest⟩
  | separator hlayout =>
      have hrest : ∀ d ∈ rest.head?, isLayout d = false := by
        intro d hd
        exact Bool.eq_false_iff.mpr fun hmore => hends d hd (.separator hmore)
      exact ⟨rfl, run_append .separator hlayout hrest⟩
  | sign hspelt =>
      obtain ⟨hlayout, hdigit, hletter⟩ := not_run_of_spelt hspelt (List.mem_cons_self ..)
      refine ⟨isBlank_eq_false hlayout, ?_⟩
      rw [first_of_operator hlayout hdigit hletter]
      have hsign := signOf?_of_spelt hspelt
      -- A sign of one character must not be the front of a longer one; a longer one never is.
      obtain ⟨d, hone⟩ | ⟨d, e, htwo⟩ := spelt_cases hspelt
      · cases hone
        have halone : ∀ d ∈ rest.head?, ∀ kind : Kind, [c, d] ∉ kind.spellings :=
          fun d hd kind hlonger => hends d hd (.sign hlonger)
        rw [List.nil_append, operator_alone halone, Option.some.inj hsign]
      · cases htwo
        have hdigraph : digraph? c e = some kind := hsign
        rw [List.cons_append, List.nil_append, operator, hdigraph]
  | illegal hlayout hdigit hletter hsign =>
      have halone : ∀ d ∈ rest.head?, ∀ kind : Kind, [c, d] ∉ kind.spellings :=
        fun d hd kind hlonger => hends d hd (.sign hlonger)
      refine ⟨isBlank_eq_false hlayout, ?_⟩
      rw [first_of_operator hlayout hdigit hletter, List.nil_append, operator_alone halone,
        monograph_of_not_spelt hsign]

/-- A run ends where a character is not admitted. -/
theorem ends_dropWhile {chars : List Char} {p : Char → Bool}
    (h : ∀ d, GoesOn kind chars d → p d = true) : Ends kind chars (text.dropWhile p) := by
  intro d hd hmore
  have hstop := List.head?_dropWhile_not p text
  rw [Option.mem_def.mp hd] at hstop
  exact Bool.false_ne_true (hstop.symm.trans (h d hmore))

/-- A sign only goes on with what makes a longer sign of it. -/
theorem longer_of_goesOn {chars : List Char} (hkind : kind ∈ operatorKinds)
    (h : GoesOn kind chars d) : ∃ longer : Kind, chars ++ [d] ∈ longer.spellings := by
  cases h with
  | number => exact absurd hkind (by decide)
  | identifier => exact absurd hkind (by decide)
  | separator => exact absurd hkind (by decide)
  | sign hspelt => exact ⟨_, hspelt⟩

/-- One character is a sign or illegal, as its kind says. -/
theorem shaped_monograph (hlayout : isLayout c = false) (hdigit : c.isDigit = false)
    (hletter : c.isAlpha = false) : Shaped (monograph c) [c] := by
  by_cases hsign : ∃ kind : Kind, [c] ∈ kind.spellings
  · obtain ⟨kind, hspelt⟩ := hsign
    have hkind : monograph c = kind := Option.some.inj (signOf?_of_spelt hspelt)
    exact hkind ▸ .sign hspelt
  · push Not at hsign
    rw [monograph_of_not_spelt hsign]
    exact .illegal hlayout hdigit hletter hsign

/-- A sign has the shape of its kind, and the longest that it can have. -/
theorem Lexeme.operator_munches (hlayout : isLayout c = false) (hdigit : c.isDigit = false)
    (hletter : c.isAlpha = false) :
    Shaped (operator c text).kind (operator c text).chars ∧
      Ends (operator c text).kind (operator c text).chars (operator c text).rest := by
  have hkind := operator_kind c text
  by_cases hpair : ∃ d ∈ text.head?, ∃ kind : Kind, [c, d] ∈ kind.spellings
  · obtain ⟨d, hd, kind, hspelt⟩ := hpair
    obtain ⟨rest, rfl⟩ := List.head?_eq_some_iff.mp hd
    have hdigraph : digraph? c d = some kind := signOf?_of_spelt hspelt
    have hboth : operator c (d :: rest) = ⟨kind, [c, d], rest⟩ := by rw [operator, hdigraph]
    rw [hboth] at hkind ⊢
    refine ⟨.sign hspelt, ?_⟩
    intro e he hmore
    obtain ⟨longer, hlonger⟩ := longer_of_goesOn hkind hmore
    obtain ⟨_, hone⟩ | ⟨_, _, htwo⟩ := spelt_cases hlonger
    · cases hone
    · cases htwo
  · push Not at hpair
    rw [operator_alone hpair] at hkind ⊢
    refine ⟨shaped_monograph hlayout hdigit hletter, ?_⟩
    intro d hd hmore
    obtain ⟨longer, hlonger⟩ := longer_of_goesOn hkind hmore
    exact hpair d hd longer hlonger

/-- **What is cut off first is a word that cannot go on.** -/
theorem Lexeme.first_munches (hblank : isBlank c = false) (text : List Char) :
    Shaped (first c text).kind (first c text).chars ∧
      Ends (first c text).kind (first c text).chars (first c text).rest := by
  by_cases hbreak : c = '\n'
  · subst hbreak
    refine ⟨.separator fun d => List.mem_takeWhile_imp, ends_dropWhile ?_⟩
    intro d hmore
    cases hmore with
    | separator hlayout => exact hlayout
    | sign hspelt => cases (not_run_of_spelt hspelt (List.mem_cons_self ..)).1
  by_cases hdigit : c.isDigit = true
  · have hfirst : first c text = run .number Char.isDigit c text := by
      rw [first, if_neg hbreak, if_pos hdigit]
    have hword : ∀ d ∈ text.takeWhile Char.isDigit, d.isDigit = true :=
      fun d => List.mem_takeWhile_imp
    rw [hfirst]
    refine ⟨.number (List.cons_ne_nil _ _) (List.forall_mem_cons.mpr ⟨hdigit, hword⟩),
      ends_dropWhile ?_⟩
    intro d hmore
    cases hmore with
    | number hmore => exact hmore
    | sign hspelt =>
        have hnone := (not_run_of_spelt hspelt (List.mem_cons_self ..)).2.1
        cases hdigit.symm.trans hnone
  by_cases hletter : c.isAlpha = true
  · have hfirst : first c text = run .identifier Char.isAlpha c text := by
      rw [first, if_neg hbreak, if_neg hdigit, if_pos hletter]
    have hword : ∀ d ∈ text.takeWhile Char.isAlpha, d.isAlpha = true :=
      fun d => List.mem_takeWhile_imp
    rw [hfirst]
    refine ⟨.identifier (List.cons_ne_nil _ _) (List.forall_mem_cons.mpr ⟨hletter, hword⟩),
      ends_dropWhile ?_⟩
    intro d hmore
    cases hmore with
    | identifier hmore => exact hmore
    | sign hspelt =>
        have hnone := (not_run_of_spelt hspelt (List.mem_cons_self ..)).2.2
        cases hletter.symm.trans hnone
  · have hlayout : isLayout c = false := by simp [isLayout, hbreak, hblank]
    rw [Bool.not_eq_true] at hdigit hletter
    rw [first_of_operator hlayout hdigit hletter]
    exact operator_munches hlayout hdigit hletter

end First

/-- The kind and the characters of a token. -/
def Token.word (token : Token) : Kind × List Char := (token.kind, token.lexeme.toList)

section Words

variable {c : Char} {gap text : List Char} {ws : List (Kind × List Char)}

/-- Blanks in front of a text do not change its words. -/
theorem words_blanks (h : ∀ c ∈ gap, isBlank c = true) : words (gap ++ text) = words text := by
  induction gap with
  | nil => rfl
  | cons c gap ih =>
      obtain ⟨hblank, hgap⟩ := List.forall_mem_cons.mp h
      rw [List.cons_append, words_blank hblank, ih hgap]

/-- A blank may stand before any words. -/
theorem Munches.blank (hblank : isBlank c = true) (h : Munches text ws) :
    Munches (c :: text) ws := by
  cases h with
  | done hgap => exact .done (List.forall_mem_cons.mpr ⟨hblank, hgap⟩)
  | word hgap hshaped hends hrest =>
      exact .word (List.forall_mem_cons.mpr ⟨hblank, hgap⟩) hshaped hends hrest

/-- What a text is cut into. -/
theorem munches_words (text : List Char) :
    ∃ ws, (words text).map Token.word = ws ++ [(.eof, [])] ∧ Munches text ws := by
  fun_induction words text with
  | case1 => exact ⟨[], rfl, .done (List.forall_mem_nil _)⟩
  | case2 c text hblank ih =>
      obtain ⟨ws, hws, hmunches⟩ := ih
      exact ⟨ws, hws, hmunches.blank hblank⟩
  | case3 c text hblank ih =>
      obtain ⟨ws, hws, hmunches⟩ := ih
      obtain ⟨hshaped, hends⟩ := Lexeme.first_munches (Bool.eq_false_iff.mpr hblank) text
      refine ⟨((Lexeme.first c text).kind, (Lexeme.first c text).chars) :: ws, ?_, ?_⟩
      · rw [List.map_cons, hws, List.cons_append, Token.word, String.toList_ofList]
      · rw [← Lexeme.append_rest c text, ← List.nil_append (_ ++ _)]
        exact .word (List.forall_mem_nil _) hshaped hends hmunches

/-- There are no empty words. -/
theorem Shaped.exists_cons {kind : Kind} {chars : List Char} (h : Shaped kind chars) :
    ∃ c word, chars = c :: word := by
  cases h with
  | number hsome => exact List.exists_cons_of_ne_nil hsome
  | identifier hsome => exact List.exists_cons_of_ne_nil hsome
  | separator => exact ⟨_, _, rfl⟩
  | sign hspelt =>
      obtain ⟨c, rfl⟩ | ⟨c, d, rfl⟩ := spelt_cases hspelt
      · exact ⟨c, [], rfl⟩
      · exact ⟨c, [d], rfl⟩
  | illegal => exact ⟨_, _, rfl⟩

/-- A text that can be taken apart this way is cut into just these words. -/
theorem Munches.words_eq (h : Munches text ws) :
    (words text).map Token.word = ws ++ [(.eof, [])] := by
  induction h with
  | @done gap hgap =>
      rw [← List.append_nil gap, words_blanks hgap, words]
      rfl
  | @word gap chars rest kind ws hgap hshaped hends hrest ih =>
      obtain ⟨c, word, rfl⟩ := hshaped.exists_cons
      obtain ⟨hblank, hfirst⟩ := Lexeme.first_of_shaped hshaped hends
      rw [words_blanks hgap, List.cons_append, words_word hblank, hfirst, List.map_cons, ih]
      simp only [Token.word, String.toList_ofList, List.cons_append]

end Words

/-- **Maximal munch.**  A text can be taken apart into words that cannot go on, with blanks around
them, in exactly one way, and its tokens are these words, closed by the end token. -/
theorem tokenize_munches (text : String) :
    ∃ ws, (tokenize text).map Token.word = ws ++ [(.eof, [])] ∧ Munches text.toList ws ∧
      ∀ others, Munches text.toList others → others = ws := by
  obtain ⟨ws, hws, hmunches⟩ := munches_words text.toList
  refine ⟨ws, (map_tokenize (fun token => rfl) text).trans hws, hmunches, ?_⟩
  intro others hothers
  exact List.append_cancel_right (hothers.words_eq.symm.trans hws)

example : (tokenize "=>=!==").map Token.word =
    [(.arrow, ['=', '>']), (.eq, ['=']), (.ne, ['!', '=']), (.eq, ['=']), (.eof, [])] := by
  decide +kernel

end DiceLang
