import DiceLang.Proofs.Program.Sound
import Mathlib.Data.List.Forall2

/-!
# Tokens that say the same

To the grammar a token is its kind, with the text of a name and the value of a number.  Where a token
stands makes no difference, nor how a number is written.  Lists whose tokens are `Alike` spell the
same: `Spells.alike` for phrases, `Sentence.alike` for expressions, `SpellsDefinition.alike` for
definitions.

So a list that is accepted remains so when its numerals are shortened (`Token.shortened`), and then
they are short enough to be converted.
-/

namespace DiceLang

open Grammar

/-- The value of a numeral. -/
def Token.number (token : Token) : Nat := Nat.ofDigitChars 10 token.lexeme.toList 0

/-- Two tokens say the same. -/
structure Token.Alike (token other : Token) : Prop where
  kind : other.kind = token.kind
  name : token.kind = .identifier → other.lexeme = token.lexeme
  number : token.kind = .number → token.number < literalBound → other.number = token.number

/-- Tokens with the same text say the same, wherever they stand. -/
theorem Token.alike_of_lexeme {token other : Token} (hkind : other.kind = token.kind)
    (hlexeme : other.lexeme = token.lexeme) : token.Alike other where
  kind := hkind
  name := fun _ => hlexeme
  number := fun _ _ => by rw [Token.number, hlexeme, Token.number]

/-- Every token says what it says. -/
theorem Token.alike_refl (token : Token) : token.Alike token := alike_of_lexeme rfl rfl

namespace Grammar

/-- The tokens of two lists say the same, one after the other. -/
abbrev Alike : List Token → List Token → Prop := List.Forall₂ Token.Alike

section Split

variable {front back others : List Token} {token : Token}

/-- What says the same as a list with a first token has one that says the same. -/
theorem Alike.cons_left (h : Alike (token :: back) others) :
    ∃ other rest, others = other :: rest ∧ token.Alike other ∧ Alike back rest := by
  obtain ⟨other, rest, halike, hrest, hothers⟩ := List.forall₂_cons_left_iff.mp h
  exact ⟨other, rest, hothers, halike, hrest⟩

/-- What says the same as two lists in a row is two such lists in a row. -/
theorem Alike.append_left (h : Alike (front ++ back) others) :
    ∃ front' back', others = front' ++ back' ∧ Alike front front' ∧ Alike back back' := by
  induction front generalizing others with
  | nil => exact ⟨[], others, rfl, .nil, h⟩
  | cons token front ih =>
      obtain ⟨other, rest, rfl, halike, hrest⟩ := Alike.cons_left h
      obtain ⟨front', back', rfl, hfront, hback⟩ := ih hrest
      exact ⟨other :: front', back', rfl, .cons halike hfront, hback⟩

theorem Alike.singleton_left (h : Alike [token] others) :
    ∃ other, others = [other] ∧ token.Alike other := by
  obtain ⟨other, rest, rfl, halike, hrest⟩ := Alike.cons_left h
  cases hrest
  exact ⟨other, rfl, halike⟩

/-- A piece in parentheses. -/
theorem Alike.enclose_left {opening closing : Token}
    (h : Alike (opening :: (front ++ [closing])) others) :
    ∃ opening' front' closing', others = opening' :: (front' ++ [closing']) ∧
      opening'.kind = opening.kind ∧ Alike front front' ∧ closing'.kind = closing.kind := by
  obtain ⟨opening', _, rfl, hopening, hrest⟩ := Alike.cons_left h
  obtain ⟨front', _, rfl, hfront, hlast⟩ := Alike.append_left hrest
  obtain ⟨closing', rfl, hclosing⟩ := Alike.singleton_left hlast
  exact ⟨opening', front', closing', rfl, hopening.kind, hfront, hclosing.kind⟩

/-- Two pieces with a sign between them. -/
theorem Alike.between_left (h : Alike (front ++ token :: back) others) :
    ∃ front' sign back', others = front' ++ sign :: back' ∧ Alike front front' ∧
      token.Alike sign ∧ Alike back back' := by
  obtain ⟨front', _, rfl, hfront, hrest⟩ := Alike.append_left h
  obtain ⟨sign, back', rfl, hsign, hback⟩ := Alike.cons_left hrest
  exact ⟨front', sign, back', rfl, hfront, hsign, hback⟩

end Split

/-- **Phrases depend on what tokens say.** -/
theorem Spells.alike {tokens others : List Token} {phrase : Phrase} (h : Spells tokens phrase)
    (halike : Alike tokens others) : Spells others phrase := by
  induction h generalizing others with
  | number hkind hrange =>
      obtain ⟨number, rfl, hsame⟩ := Alike.singleton_left halike
      have hvalue := hsame.number hkind hrange
      unfold Token.number at hvalue
      rw [← hvalue] at hrange ⊢
      exact .number (hsame.kind.trans hkind) hrange
  | group hopening _ hclosing ih =>
      obtain ⟨opening, inner, closing, rfl, hopen, hinner, hclose⟩ := Alike.enclose_left halike
      exact .group (hopen.trans hopening) (ih hinner) (hclose.trans hclosing)
  | emptyCall hname hopening hclosing =>
      obtain ⟨name, _, rfl, hsame, hrest⟩ := Alike.cons_left halike
      obtain ⟨opening, _, rfl, hopen, hlast⟩ := Alike.cons_left hrest
      obtain ⟨closing, rfl, hclose⟩ := Alike.singleton_left hlast
      rw [← hsame.name hname]
      exact .emptyCall (hsame.kind.trans hname) (hopen.kind.trans hopening)
        (hclose.kind.trans hclosing)
  | singleCall hname hopening _ hclosing ih =>
      obtain ⟨name, _, rfl, hsame, hrest⟩ := Alike.cons_left halike
      obtain ⟨opening, inner, closing, rfl, hopen, hinner, hclose⟩ := Alike.enclose_left hrest
      rw [← hsame.name hname]
      exact .singleCall (hsame.kind.trans hname) (hopen.trans hopening) (ih hinner)
        (hclose.trans hclosing)
  | call hname hopening _ hclosing hmany ih =>
      obtain ⟨name, _, rfl, hsame, hrest⟩ := Alike.cons_left halike
      obtain ⟨opening, inner, closing, rfl, hopen, hinner, hclose⟩ := Alike.enclose_left hrest
      rw [← hsame.name hname]
      exact .call (hsame.kind.trans hname) (hopen.trans hopening) (ih hinner)
        (hclose.trans hclosing) hmany
  | prefixed hname hnumber _ ih =>
      obtain ⟨name, _, rfl, hsame, hrest⟩ := Alike.cons_left halike
      obtain ⟨number, rfl, hvalue⟩ := Alike.singleton_left hrest
      rw [← hsame.name hname]
      exact .prefixed (hsame.kind.trans hname) (hvalue.kind.trans hnumber) (ih hrest)
  | nullary hname =>
      obtain ⟨name, rfl, hsame⟩ := Alike.singleton_left halike
      rw [← hsame.name hname]
      exact .nullary (hsame.kind.trans hname)
  | infixed _ hname _ ihl ihr =>
      obtain ⟨left, name, right, rfl, hleft, hsame, hright⟩ := Alike.between_left halike
      rw [← hsame.name hname]
      exact .infixed (ihl hleft) (hsame.kind.trans hname) (ihr hright)
  | postfixed _ hname ih =>
      obtain ⟨left, _, rfl, hleft, hlast⟩ := Alike.append_left halike
      obtain ⟨name, rfl, hsame⟩ := Alike.singleton_left hlast
      rw [← hsame.name hname]
      exact .postfixed (ih hleft) (hsame.kind.trans hname)
  | operand _ ih => exact .operand (ih halike)
  | factor _ ih => exact .factor (ih halike)
  | multiplied _ hsign hop _ ihl ihr =>
      obtain ⟨left, sign, right, rfl, hleft, hsame, hright⟩ := Alike.between_left halike
      exact .multiplied (ihl hleft) (hsame.kind.trans hsign) hop (ihr hright)
  | summand _ ih => exact .summand (ih halike)
  | added _ hsign hop _ ihl ihr =>
      obtain ⟨left, sign, right, rfl, hleft, hsame, hright⟩ := Alike.between_left halike
      exact .added (ihl hleft) (hsame.kind.trans hsign) hop (ihr hright)
  | unordered _ ih => exact .unordered (ih halike)
  | ordered _ hsign hop _ ihl ihr =>
      obtain ⟨left, sign, right, rfl, hleft, hsame, hright⟩ := Alike.between_left halike
      exact .ordered (ihl hleft) (hsame.kind.trans hsign) hop (ihr hright)
  | unequated _ ih => exact .unequated (ih halike)
  | equated _ hsign hop _ ihl ihr =>
      obtain ⟨left, sign, right, rfl, hleft, hsame, hright⟩ := Alike.between_left halike
      exact .equated (ihl hleft) (hsame.kind.trans hsign) hop (ihr hright)
  | argument _ ih => exact .argument (ih halike)
  | further _ hcomma _ ihl ihr =>
      obtain ⟨front, comma, back, rfl, hfront, hsame, hback⟩ := Alike.between_left halike
      exact .further (ihl hfront) (hsame.kind.trans hcomma) (ihr hback)

section Whole

variable {tokens others gap : List Token}

theorem Alike.separators (h : Alike gap others) (hgap : ∀ token ∈ gap, token.kind = .separator) :
    ∀ token ∈ others, token.kind = .separator := by
  induction h with
  | nil => exact nofun
  | cons halike _ ih =>
      obtain ⟨hfirst, hrest⟩ := List.forall_mem_cons.mp hgap
      exact List.forall_mem_cons.mpr ⟨halike.kind.trans hfirst, ih hrest⟩

/-- **Sentences depend on what tokens say.** -/
theorem Sentence.alike {tree : Tree} (h : Sentence tokens tree) (halike : Alike tokens others) :
    Sentence others tree := by
  obtain ⟨body, gap, stop, rfl, hspells, hgap, hstop⟩ := h
  obtain ⟨body', _, rfl, hbody, hrest⟩ := Alike.append_left halike
  obtain ⟨gap', _, rfl, hgap', hlast⟩ := Alike.append_left hrest
  obtain ⟨stop', rfl, hstop'⟩ := Alike.singleton_left hlast
  exact ⟨body', gap', stop', rfl, hspells.alike hbody, Alike.separators hgap' hgap,
    hstop'.kind.trans hstop⟩

/-- Patterns depend on what tokens say. -/
theorem SpellsPattern.alike {pattern : Pattern} (h : SpellsPattern tokens pattern)
    (halike : Alike tokens others) : SpellsPattern others pattern := by
  cases h with
  | nullary hname =>
      obtain ⟨name, rfl, hsame⟩ := Alike.singleton_left halike
      rw [← hsame.name hname]
      exact .nullary (hsame.kind.trans hname)
  | prefixed hname hopening hparameter hclosing =>
      obtain ⟨name, _, rfl, hsame, hrest⟩ := Alike.cons_left halike
      obtain ⟨opening, _, rfl, hopen, hrest⟩ := Alike.cons_left hrest
      obtain ⟨parameter, _, rfl, hinner, hrest⟩ := Alike.cons_left hrest
      obtain ⟨closing, rfl, hclose⟩ := Alike.singleton_left hrest
      rw [← hsame.name hname, ← hinner.name hparameter]
      exact .prefixed (hsame.kind.trans hname) (hopen.kind.trans hopening)
        (hinner.kind.trans hparameter) (hclose.kind.trans hclosing)
  | infixed hname hopening hleft hclosing hright hdiffer =>
      obtain ⟨name, _, rfl, hsame, hrest⟩ := Alike.cons_left halike
      obtain ⟨opening, _, rfl, hopen, hrest⟩ := Alike.cons_left hrest
      obtain ⟨left, _, rfl, hfirst, hrest⟩ := Alike.cons_left hrest
      obtain ⟨closing, _, rfl, hclose, hrest⟩ := Alike.cons_left hrest
      obtain ⟨right, rfl, hsecond⟩ := Alike.singleton_left hrest
      rw [← hfirst.name hleft, ← hsecond.name hright] at hdiffer ⊢
      rw [← hsame.name hname]
      exact .infixed (hsame.kind.trans hname) (hopen.kind.trans hopening)
        (hfirst.kind.trans hleft) (hclose.kind.trans hclosing) (hsecond.kind.trans hright) hdiffer
  | postfixed hopening hparameter hclosing hname =>
      obtain ⟨opening, _, rfl, hopen, hrest⟩ := Alike.cons_left halike
      obtain ⟨parameter, _, rfl, hinner, hrest⟩ := Alike.cons_left hrest
      obtain ⟨closing, _, rfl, hclose, hrest⟩ := Alike.cons_left hrest
      obtain ⟨name, rfl, hsame⟩ := Alike.singleton_left hrest
      rw [← hsame.name hname, ← hinner.name hparameter]
      exact .postfixed (hopen.kind.trans hopening) (hinner.kind.trans hparameter)
        (hclose.kind.trans hclosing) (hsame.kind.trans hname)

/-- **Definitions depend on what tokens say.** -/
theorem SpellsDefinition.alike {definition : Definition} (h : SpellsDefinition tokens definition)
    (halike : Alike tokens others) : SpellsDefinition others definition := by
  obtain ⟨hhead, harrow, hbody⟩ := h
  obtain ⟨head', arrow', body', rfl, hsame, hkind, hrest⟩ := Alike.between_left halike
  exact .arrow (hhead.alike hsame) (hkind.kind.trans harrow) (hbody.alike hrest)

end Whole

end Grammar

namespace Token

/-- The token, with a numeral written anew, so short that it can be converted. -/
def shortened (token : Token) : Token :=
  if token.kind = .number then
    { token with lexeme := String.ofList (Nat.toDigits 10 (token.number % literalBound)) }
  else token

/-- A numeral that is written anew remains one. -/
theorem kind_shortened (token : Token) : token.shortened.kind = token.kind := by
  unfold shortened
  split <;> rfl

/-- A numeral that is written anew has the digits of a small number. -/
theorem exists_toDigits {token : Token} (h : token.shortened.kind = .number) :
    ∃ n < literalBound, token.shortened.lexeme.toList = Nat.toDigits 10 n := by
  rw [kind_shortened] at h
  refine ⟨token.number % literalBound, Nat.mod_lt _ (by decide), ?_⟩
  rw [shortened, if_pos h, String.toList_ofList]

/-- It is short enough. -/
theorem not_overlong_shortened (token : Token) : ¬ Overlong token.shortened := by
  intro hlong
  obtain ⟨n, hbound, hdigits⟩ := exists_toDigits hlong.1
  exact not_overlong_of_digits hbound hdigits hlong

/-- The same is said with short numerals. -/
theorem alike_shortened (token : Token) : token.Alike token.shortened := by
  by_cases hkind : token.kind = .number
  · rw [shortened, if_pos hkind]
    refine ⟨rfl, fun hname => ?_, fun _ hbound => ?_⟩
    · cases hname.symm.trans hkind
    · unfold number at hbound ⊢
      rw [Nat.mod_eq_of_lt hbound, String.toList_ofList, Nat.ofDigitChars_ten_toDigits]
  · rw [shortened, if_neg hkind]
    exact alike_refl token

end Token

/-- Numerals that are written anew are runs of digits. -/
theorem Grammar.Legible.append_shortened {front : List Token} (h : Legible front) (back : List Token) :
    Legible (front ++ back.map Token.shortened) := by
  refine List.forall_mem_append.mpr ⟨h, List.forall_mem_map.mpr fun written _ hkind => ?_⟩
  obtain ⟨n, -, hdigits⟩ := Token.exists_toDigits hkind
  rw [hdigits]
  exact ⟨Nat.toDigits_ne_nil, fun c hc => Nat.isDigit_of_mem_toDigits (by decide) (by decide) hc⟩

/-- The same is said where only the numerals behind some tokens are written anew. -/
theorem Grammar.alike_append_shortened (front back : List Token) :
    Grammar.Alike (front ++ back) (front ++ back.map Token.shortened) := by
  have hfront : Grammar.Alike front front :=
    List.forall₂_same.mpr fun token _ => Token.alike_refl token
  have hback : Grammar.Alike back (back.map Token.shortened) :=
    List.forall₂_map_right_iff.mpr (List.forall₂_same.mpr fun token _ => Token.alike_shortened token)
  exact List.rel_append hfront hback

end DiceLang
