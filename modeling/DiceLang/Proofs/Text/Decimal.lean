import DiceLang.Text.Decimal
import Mathlib.Data.List.TakeWhile

/-!
# Runs of digits

A numeral that is cut from a text is a run of ASCII digits.  It could be converted like any text that
may denote an integer, with digits of other scripts, a sign, underscores and white space around it;
`Text.integer?_digits` says that for such a run this comes to the same as `Text.readDigits?`.
-/

namespace DiceLang

namespace Text

variable {c : Char} {digits : List Char}

/-- The ASCII digits have consecutive code points. -/
theorem toNat_of_isDigit (h : c.isDigit = true) : 48 ≤ c.toNat ∧ c.toNat ≤ 57 := by
  simpa [Char.isDigit, UInt32.le_iff_toNat_le] using h

/-- A digit is no white space. -/
theorem isSpace_of_isDigit (h : c.isDigit = true) : isSpace c = false := by
  obtain ⟨hlow, hhigh⟩ := toNat_of_isDigit h
  simp only [isSpace, spaceRanges, List.any_eq_false, List.forall_mem_cons, Bool.and_eq_true,
    decide_eq_true_eq, not_and]
  refine ⟨?_, ?_, ?_, ?_, ?_, ?_, ?_, ?_, ?_, ?_, nofun⟩ <;> omega

/-- The ASCII digits are the first of all scripts. -/
theorem digitValue?_of_isDigit (h : c.isDigit = true) : digitValue? c = some (c.toNat - 48) := by
  obtain ⟨hlow, hhigh⟩ := toNat_of_isDigit h
  have hfirst : (decide (48 ≤ c.toNat) && decide (c.toNat < 48 + 10)) = true := by
    rw [Bool.and_eq_true, decide_eq_true_iff, decide_eq_true_iff]
    omega
  have hzeros : zeros = 48 :: zeros.tail := rfl
  unfold digitValue?
  rw [hzeros, List.find?_cons_of_pos (by simpa using hfirst), Option.map_some]

/-- There is no white space at the ends of a run of digits. -/
theorem strip_digits (h : ∀ c ∈ digits, c.isDigit = true) : strip digits = digits := by
  have hkeep : ∀ chars : List Char, (∀ c ∈ chars, c.isDigit = true) →
      chars.dropWhile isSpace = chars := by
    intro chars hchars
    cases chars with
    | nil => rfl
    | cons c chars => rw [List.dropWhile_cons_of_neg (by simp [isSpace_of_isDigit (hchars c (by simp))])]
  unfold strip
  rw [hkeep digits h, hkeep _ (by simpa using h), List.reverse_reverse]

/-- A run of ASCII digits is a numeral of which each character is a digit. -/
theorem numeralDigits?_digits (h : ∀ c ∈ digits, c.isDigit = true) (hsome : digits ≠ []) :
    numeralDigits? digits = some (digits.map fun c => c.toNat - 48) := by
  induction digits with
  | nil => exact absurd rfl hsome
  | cons c digits ih =>
      obtain ⟨hfirst, hothers⟩ := List.forall_mem_cons.mp h
      have hvalue := digitValue?_of_isDigit hfirst
      cases digits with
      | nil => simp [numeralDigits?, hvalue]
      | cons d digits =>
          have hmark : d ≠ '_' := by
            rintro rfl
            exact absurd (hothers '_' (by simp)) (by decide)
          have hdigits := ih hothers (List.cons_ne_nil d digits)
          rw [numeralDigits?.eq_def (c :: d :: digits)]
          dsimp only
          rw [hvalue]
          split
          · next heq => cases heq
          · next heq => cases heq
          · next heq => exact absurd (List.cons.inj heq).1 hmark
          · next heq _ _ =>
              cases heq
              rw [hdigits]
              rfl

/-- The digits of a run denote the number that the run denotes. -/
theorem ofDigits_digits (digits : List Char) :
    ofDigits (digits.map fun c => c.toNat - 48) = Nat.ofDigitChars 10 digits 0 := by
  unfold ofDigits Nat.ofDigitChars
  rw [List.foldl_map]
  rfl

/-- A run of ASCII digits denotes the same number, whichever way it is read. -/
theorem integer?_digits {text : String} (hsome : text.toList ≠ [])
    (hdigits : ∀ c ∈ text.toList, c.isDigit = true) :
    integer? text = (readDigits? text.toList).map Int.ofNat := by
  have hread : readNumeral? text.toList = readDigits? text.toList := by
    simp only [readNumeral?, numeralDigits?_digits hdigits hsome, List.length_map, readDigits?,
      ofDigits_digits]
  unfold integer?
  rw [strip_digits hdigits, ← hread]
  generalize text.toList = digits at hdigits
  unfold readInteger?
  split
  · exact absurd (hdigits '+' (by simp)) (by decide)
  · exact absurd (hdigits '-' (by simp)) (by decide)
  · rfl

end Text

end DiceLang
