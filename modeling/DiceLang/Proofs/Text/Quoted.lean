import DiceLang.Text.Quoted
import Mathlib.Data.List.Forall2

/-!
# Quoted text can be read back

A quoted text tells where it ends and what it stands for, whatever follows it.  The same is true of the
pieces it is made of, and of what is made of quoted texts, so it is a property of codes in general:
`SelfDelimiting code` says that from a code word with something behind it both can be told.  The code
words of several values in a row can be told apart if what is behind them cannot be taken for one more,
which is `flatMap_parted`.

Characters are read back one by one by `Text.unescape?`.  `Text.quotedChars_selfDelimiting` is the
result for whole texts.
-/

namespace DiceLang

section Codes

variable {α β : Type} {code : α → List β}

/-- From the code word of a value with something behind it, both can be told. -/
def SelfDelimiting (code : α → List β) : Prop :=
  ∀ (a b : α) (behind behind' : List β), code a ++ behind = code b ++ behind' →
    a = b ∧ behind = behind'

/-- **Code words in a row.**  If code words can be told apart up to a relation, so can lists of them,
provided that what is behind them does not go on with another one. -/
theorem flatMap_parted {related : α → α → Prop} {as bs : List α} {behind behind' : List β}
    (hcode : ∀ a ∈ as, ∀ b rest rest', code a ++ rest = code b ++ rest' → related a b ∧ rest = rest')
    (hends : ∀ b rest, code b ++ rest ≠ behind) (hends' : ∀ a rest, code a ++ rest ≠ behind')
    (h : as.flatMap code ++ behind = bs.flatMap code ++ behind') :
    List.Forall₂ related as bs ∧ behind = behind' := by
  induction as generalizing bs with
  | nil =>
      cases bs with
      | nil => exact ⟨.nil, h⟩
      | cons b bs =>
          rw [List.flatMap_cons, List.append_assoc] at h
          exact absurd h.symm (hends b _)
  | cons a as ih =>
      rw [List.flatMap_cons, List.append_assoc] at h
      cases bs with
      | nil => exact absurd h (hends' a _)
      | cons b bs =>
          rw [List.flatMap_cons, List.append_assoc] at h
          obtain ⟨hfirst, hrest⟩ := hcode a List.mem_cons_self b _ _ h
          obtain ⟨hothers, hbehind⟩ := ih (fun a ha => hcode a (List.mem_cons_of_mem _ ha)) hrest
          exact ⟨.cons hfirst hothers, hbehind⟩

/-- A row of parts can be told from their codes, if its end is not taken for one. -/
theorem SelfDelimiting.flatMap (hcode : SelfDelimiting code) {as bs : List α}
    {behind behind' : List β} (hends : ∀ b rest, code b ++ rest ≠ behind)
    (hends' : ∀ a rest, code a ++ rest ≠ behind')
    (h : as.flatMap code ++ behind = bs.flatMap code ++ behind') : as = bs ∧ behind = behind' := by
  obtain ⟨hsame, hbehind⟩ := flatMap_parted (fun a _ b _ _ => hcode a b _ _) hends hends' h
  exact ⟨List.forall₂_eq_eq_eq ▸ hsame, hbehind⟩

end Codes

namespace Text

/-- The value of a lower-case hexadecimal digit. -/
def hexDigitValue (c : Char) : Nat :=
  if c.isDigit then c.toNat - '0'.toNat else c.toNat - 'a'.toNat + 10

/-- The value of a run of hexadecimal digits. -/
def hexValue (digits : List Char) : Nat :=
  digits.foldl (fun n c => 16 * n + hexDigitValue c) 0

theorem hexDigitValue_digitChar : ∀ d < 16, hexDigitValue (Nat.digitChar d) = d := by decide

/-- A further digit makes sixteen times as much of those before it. -/
theorem hexValue_append (digits : List Char) (c : Char) :
    hexValue (digits ++ [c]) = 16 * hexValue digits + hexDigitValue c := by
  simp [hexValue]

/-- A number can be told from its hexadecimal digits. -/
theorem hexValue_toDigits (n : Nat) : hexValue (Nat.toDigits 16 n) = n := by
  induction n using Nat.base_induction 16 (by decide) with
  | single d hd =>
      rw [Nat.toDigits_of_lt_base hd, ← List.nil_append [_], hexValue_append,
        hexDigitValue_digitChar d hd]
      exact Nat.zero_add d
  | digit n d hd hn ih =>
      rw [← Nat.toDigits_append_toDigits (by decide) hn hd, Nat.toDigits_of_lt_base hd,
        hexValue_append, ih, hexDigitValue_digitChar d hd]

/-- Leading zeros make no difference to it. -/
theorem hexValue_hexadecimal (width n : Nat) : hexValue (hexadecimal width n) = n := by
  have hzeros : ∀ count, hexValue (List.replicate count '0') = 0 := by
    intro count
    induction count with
    | zero => rfl
    | succ count ih =>
        rw [List.replicate_succ', hexValue_append, ih]
        rfl
  have hfill := hzeros (width - (Nat.toDigits 16 n).length)
  unfold hexValue at hfill
  rw [hexadecimal, List.leftpad, hexValue, List.foldl_append, hfill]
  exact hexValue_toDigits n

/-- A number that fits takes as many digits as there is room for. -/
theorem length_hexadecimal {width n : Nat} (hwidth : 0 < width) (h : n < Nat.pow 16 width) :
    (hexadecimal width n).length = width := by
  have hdigits := (Nat.length_toDigits_le_iff (by decide) hwidth).mpr h
  rw [hexadecimal, List.length_leftpad]
  exact Nat.max_eq_left hdigits

theorem newline_not_mem_hexadecimal (width n : Nat) : '\n' ∉ hexadecimal width n := by
  have hdigits : '\n' ∉ Nat.toDigits 16 n := by
    induction n using Nat.base_induction 16 (by decide) with
    | single d hd => simp [Nat.toDigits_of_lt_base hd]
    | digit n d hd hn ih =>
        rw [← Nat.toDigits_append_toDigits (by decide) hn hd, Nat.toDigits_of_lt_base hd]
        simp [ih]
  rw [hexadecimal, List.leftpad, List.mem_append]
  rintro (hzero | hdigit)
  · exact absurd (List.eq_of_mem_replicate hzero) (by decide)
  · exact hdigits hdigit

/-- Reads one character as it is written inside quotation marks, and what is behind it. -/
def unescape? : List Char → Option (Char × List Char)
  | [] => none
  | c :: rest =>
    if c = backslash then
      match rest with
      | [] => none
      | 'n' :: rest => some ('\n', rest)
      | 'r' :: rest => some ('\r', rest)
      | 't' :: rest => some ('\t', rest)
      | 'x' :: rest => some (Char.ofNat (hexValue (rest.take 2)), rest.drop 2)
      | 'u' :: rest => some (Char.ofNat (hexValue (rest.take 4)), rest.drop 4)
      | 'U' :: rest => some (Char.ofNat (hexValue (rest.take 8)), rest.drop 8)
      | c :: rest => some (c, rest)
    else some (c, rest)

/-- The two characters that texts are quoted with. -/
def IsMark (mark : Char) : Prop := mark = apostrophe ∨ mark = doubleQuote

/-- A text is quoted with one of the two quotation marks. -/
theorem isMark_quoteMark (text : List Char) : IsMark (quoteMark text) := by
  unfold quoteMark
  split
  · exact .inr rfl
  · exact .inl rfl

/-- A quotation mark is no backslash. -/
theorem IsMark.ne_backslash {mark : Char} (h : IsMark mark) : mark ≠ backslash := by
  rcases h with rfl | rfl <;> decide

/-- The digits of a code point are read back and hold no line break. -/
theorem hexadecimal_parts (letter : Char) (hletter : '\n' ≠ letter) (width : Nat)
    (hwidth : 0 < width) {c : Char} (h : c.toNat < Nat.pow 16 width) :
    '\n' ∉ letter :: hexadecimal width c.toNat ∧
      ∀ rest, (Char.ofNat (hexValue ((hexadecimal width c.toNat ++ rest).take width)),
        (hexadecimal width c.toNat ++ rest).drop width) = (c, rest) := by
  have hlength := length_hexadecimal hwidth h
  refine ⟨List.not_mem_cons_of_ne_of_not_mem hletter (newline_not_mem_hexadecimal _ _), ?_⟩
  intro rest
  rw [List.take_left' hlength, List.drop_left' hlength, hexValue_hexadecimal, Char.ofNat_toNat]

/-- A character is written as itself or behind a backslash, where it is read back; never is a line
break written. -/
theorem escaped_cases {mark : Char} (hmark : IsMark mark) (c : Char) :
    (escaped mark c = [c] ∧ c ≠ mark ∧ c ≠ backslash ∧ c ≠ '\n') ∨
      ∃ more, escaped mark c = backslash :: more ∧ '\n' ∉ more ∧
        ∀ rest, unescape? (backslash :: (more ++ rest)) = some (c, rest) := by
  unfold escaped
  split
  · next hspecial =>
      have hcases : c = apostrophe ∨ c = doubleQuote ∨ c = backslash := by
        rcases Bool.or_eq_true_iff.mp hspecial with hc | hc
        · rw [of_decide_eq_true hc]
          exact hmark.imp_right .inl
        · exact .inr (.inr (of_decide_eq_true hc))
      refine .inr ⟨[c], rfl, ?_, ?_⟩
      · rcases hcases with rfl | rfl | rfl <;> decide
      · rcases hcases with rfl | rfl | rfl <;> exact fun _ => rfl
  · next hplain =>
      split
      · next hc => exact .inr ⟨_, rfl, by decide, fun _ => hc ▸ rfl⟩
      split
      · next hc => exact .inr ⟨_, rfl, by decide, fun _ => hc ▸ rfl⟩
      split
      · next hc => exact .inr ⟨_, rfl, by decide, fun _ => hc ▸ rfl⟩
      split
      · next hbreak _ _ _ =>
          exact .inl ⟨rfl, fun hc => hplain (by simp [hc]), fun hc => hplain (by simp [hc]), hbreak⟩
      split
      · next hsmall =>
          obtain ⟨hnone, hread⟩ := hexadecimal_parts 'x' (by decide) 2 (by decide) hsmall
          exact .inr ⟨_, rfl, hnone, fun rest => congrArg some (hread rest)⟩
      split
      · next hsmall =>
          obtain ⟨hnone, hread⟩ := hexadecimal_parts 'u' (by decide) 4 (by decide) hsmall
          exact .inr ⟨_, rfl, hnone, fun rest => congrArg some (hread rest)⟩
      · have hsmall : c.toNat < Nat.pow 16 8 := c.val.toNat_lt
        obtain ⟨hnone, hread⟩ := hexadecimal_parts 'U' (by decide) 8 (by decide) hsmall
        exact .inr ⟨_, rfl, hnone, fun rest => congrArg some (hread rest)⟩

/-- **Characters are read back.** -/
theorem unescape?_escaped {mark : Char} (hmark : IsMark mark) (c : Char) (rest : List Char) :
    unescape? (escaped mark c ++ rest) = some (c, rest) := by
  rcases escaped_cases hmark c with ⟨hself, -, hne, -⟩ | ⟨more, hmore, -, hread⟩
  · rw [hself, List.singleton_append, unescape?.eq_def]
    exact if_neg hne
  · rw [hmore, List.cons_append]
    exact hread rest

/-- Where an escaped character ends can be told from itself. -/
theorem escaped_selfDelimiting {mark : Char} (hmark : IsMark mark) :
    SelfDelimiting (escaped mark) := by
  intro c d behind behind' h
  have hread := congrArg unescape? h
  rw [unescape?_escaped hmark, unescape?_escaped hmark] at hread
  exact Prod.mk.inj (Option.some.inj hread)

/-- The mark itself stands only at the ends of a quoted text. -/
theorem escaped_append_ne {mark : Char} (hmark : IsMark mark) (c : Char) (rest behind : List Char) :
    escaped mark c ++ rest ≠ mark :: behind := by
  intro h
  rcases escaped_cases hmark c with ⟨hself, hne, -, -⟩ | ⟨more, hmore, -, -⟩
  · rw [hself] at h
    exact hne (List.head_eq_of_cons_eq h)
  · rw [hmore] at h
    exact hmark.ne_backslash (List.head_eq_of_cons_eq h).symm

/-- A newline in a text is escaped. -/
theorem newline_not_mem_quotedChars (text : List Char) : '\n' ∉ quotedChars text := by
  have hmark := isMark_quoteMark text
  have hends : '\n' ≠ quoteMark text := by
    rcases hmark with h | h <;> rw [h] <;> decide
  simp only [quotedChars, List.mem_cons, List.mem_append, List.mem_flatMap, List.not_mem_nil,
    or_false, not_or, not_exists, not_and]
  refine ⟨hends, fun c _ hmem => ?_, hends⟩
  rcases escaped_cases hmark c with ⟨hself, -, -, hne⟩ | ⟨more, hmore, hnone, -⟩
  · rw [hself] at hmem
    exact hne (List.mem_singleton.mp hmem).symm
  · rw [hmore] at hmem
    exact hnone ((List.mem_cons.mp hmem).resolve_left (by decide))

/-- **A quoted text can be read back**, whatever is behind it. -/
theorem quotedChars_selfDelimiting : SelfDelimiting quotedChars := by
  intro text text' behind behind' h
  simp only [quotedChars, List.cons_append, List.append_assoc, List.nil_append,
    List.cons.injEq] at h
  obtain ⟨hmark, h⟩ := h
  have hquote := isMark_quoteMark text'
  rw [hmark] at h
  obtain ⟨hsame, hbehind⟩ := (escaped_selfDelimiting hquote).flatMap
    (fun c rest => escaped_append_ne hquote c rest behind)
    (fun c rest => escaped_append_ne hquote c rest behind') h
  exact ⟨hsame, List.tail_eq_of_cons_eq hbehind⟩

/-- Different texts are quoted differently. -/
theorem quoted_inj {a b : String} : quoted a = quoted b ↔ a = b := by
  refine ⟨fun h => ?_, congrArg quoted⟩
  have hchars : quotedChars a.toList ++ [] = quotedChars b.toList ++ [] :=
    congrArg (· ++ []) (String.ofList_injective h)
  exact String.toList_injective (quotedChars_selfDelimiting _ _ _ _ hchars).1

end Text

end DiceLang
