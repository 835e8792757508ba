import DiceLang.Proofs.Line
import DiceLang.Proofs.Program.Complete
import DiceLang.Proofs.Token.Joined

/-!
# Blocks joined by a line break

Two texts joined by a newline spell a block of definitions if and only if each of them does, and then
they spell the definitions of the first followed by those of the second (`listing_joined`).  The
definitions of a text are therefore those of its lines, one line after the other.

What can be read of the two can be read of both together (`fit_joined`), for a block closes every
parenthesis that it opens.
-/

namespace DiceLang

namespace Grammar

section Bare

variable {limit : Nat} {tokens : List Token} {block : List Definition}

/-- Where tokens stand has no part in the grammar. -/
theorem listing_bare_iff : Listing (tokens.map Token.bare) block ↔ Listing tokens block := by
  constructor
  · intro h
    refine h.alike (List.forall₂_map_left_iff.mpr (List.forall₂_same.mpr fun token _ => ?_))
    exact Token.alike_of_lexeme rfl rfl
  · intro h
    refine h.alike (List.forall₂_map_right_iff.mpr (List.forall₂_same.mpr fun token _ => ?_))
    exact Token.alike_of_lexeme rfl rfl

/-- Where tokens stand makes no difference to the parentheses that are open. -/
theorem unclosed_bare (tokens : List Token) : unclosed (tokens.map Token.bare) = unclosed tokens := by
  unfold unclosed
  rw [List.countP_map, List.countP_map]
  rfl

theorem fit_bare_iff : Fit limit (tokens.map Token.bare) ↔ Fit limit tokens := by
  constructor
  · rintro ⟨hnested, hshort⟩
    refine ⟨fun front hfront => ?_, fun token htoken => ?_⟩
    · rw [← unclosed_bare]
      exact hnested _ (hfront.map Token.bare)
    · exact hshort token.bare (List.mem_map_of_mem htoken)
  · rintro ⟨hnested, hshort⟩
    refine ⟨fun front hfront => ?_, fun token htoken => ?_⟩
    · obtain ⟨piece, hpiece, rfl⟩ := List.prefix_map_iff.mp hfront
      rw [unclosed_bare]
      exact hnested piece hpiece
    · obtain ⟨other, hother, rfl⟩ := List.mem_map.mp htoken
      exact hshort other hother

end Bare

section Joined

variable {limit : Nat} {first second both tokens : List Token} {block : List Definition}

/-- A listing is lines with the end behind them. -/
theorem listing_append_iff {stop : Token} (hstop : stop.kind = .eof) :
    Listing (tokens ++ [stop]) block ↔ Lines tokens block := by
  refine ⟨fun h => ?_, fun h => h.listing hstop⟩
  obtain ⟨body, last, htokens, -, hbody⟩ := listing_iff.mp h
  obtain ⟨rfl, -⟩ := List.append_inj' htokens rfl
  exact hbody

/-- **A block is taken apart where lists are joined.** -/
theorem listing_iff_of_joined (h : Joined first second both) :
    Listing both block ↔
      ∃ one two, block = one ++ two ∧ Listing first one ∧ Listing second two := by
  obtain @⟨front, gap, back, behind, stop, sep, last, hstop, hgap, hsep, hbehind, hlast⟩ := h
  have hfirst : ∀ one, Listing (front ++ (gap ++ [stop])) one ↔ Lines front one := by
    intro one
    rw [← List.append_assoc, listing_append_iff hstop, lines_append_gaps_iff hgap]
  have hsecond : ∀ two, Listing (behind ++ (back ++ [last])) two ↔ Lines back two := by
    intro two
    rw [← List.append_assoc, listing_append_iff hlast, lines_gaps_iff hbehind]
  have hboth : Listing (front ++ sep :: (back ++ [last])) block ↔
      Lines (front ++ sep :: back) block := by
    rw [← List.cons_append, ← List.append_assoc, listing_append_iff hlast]
  simp only [hfirst, hsecond, hboth]
  constructor
  · exact fun hlines => hlines.split hsep rfl
  · rintro ⟨one, two, rfl, hone, htwo⟩
    exact hone.append hsep htwo

/-- Lists that are fit for reading can be joined, if the first of them is a block. -/
theorem fit_of_joined (h : Joined first second both) (hfirst : Fit limit first)
    (hsecond : Fit limit second) {one : List Definition} (hone : Listing first one) :
    Fit limit both := by
  obtain @⟨front, gap, back, behind, stop, sep, last, hstop, hgap, hsep, hbehind, hlast⟩ := h
  have hlines : Lines front one := by
    rwa [← List.append_assoc, listing_append_iff hstop, lines_append_gaps_iff hgap] at hone
  have hback : Fit limit (sep :: (back ++ [last])) :=
    (hsecond.rest (balanced_of_gap hbehind)).cons (balanced_of_kind hsep (by decide))
      (not_overlong (by simp [hsep]))
  exact hfirst.front.append hlines.balanced hback

end Joined

end Grammar

section Texts

open Grammar

variable {first second text : String} {block : List Definition}

/-- The tokens of two texts on lines of their own are joined by a line break. -/
theorem joined_tokenize (first second : String) :
    Joined ((tokenize first).map Token.bare) ((tokenize second).map Token.bare)
      ((tokenize (first ++ "\n" ++ second)).map Token.bare) := by
  have htext : (first ++ "\n" ++ second).toList = first.toList ++ '\n' :: second.toList := by simp
  rw [map_bare_tokenize, map_bare_tokenize, map_bare_tokenize, htext]
  exact words_joined first.toList second.toList

/-- **Blocks are put together line by line**, and taken apart. -/
theorem listing_joined : Listing (tokenize (first ++ "\n" ++ second)) block ↔
    ∃ one two, block = one ++ two ∧ Listing (tokenize first) one ∧
      Listing (tokenize second) two := by
  have hsplit : Listing ((tokenize (first ++ "\n" ++ second)).map Token.bare) block ↔ _ :=
    listing_iff_of_joined (joined_tokenize first second)
  simpa only [listing_bare_iff] using hsplit

/-- If two texts are fit for reading and the first is a listing, both are fit in a row. -/
theorem fit_joined {limit : Nat} {one : List Definition} (hfirst : Fit limit (tokenize first))
    (hsecond : Fit limit (tokenize second)) (hone : Listing (tokenize first) one) :
    Fit limit (tokenize (first ++ "\n" ++ second)) :=
  fit_bare_iff.mp (fit_of_joined (joined_tokenize first second) (fit_bare_iff.mpr hfirst)
    (fit_bare_iff.mpr hsecond) (listing_bare_iff.mpr hone))

/-- A text that spells a block of definitions is read as that block. -/
theorem Program.parse_of_listing (hfit : Fit nestingLimit (tokenize text))
    (h : Listing (tokenize text) block) : ∃ program, Program.parse text = .ok program ∧
      program.definitions.map Definition.erase = block.map Definition.erase := by
  obtain ⟨program, hprogram, hsame⟩ := ofTokens_of_listing hfit h
  refine ⟨program, ?_, hsame⟩
  unfold Program.parse
  rw [hprogram]
  rfl

end Texts

end DiceLang
