import DiceLang.Proofs.Token.Munch
import DiceLang.Proofs.Token.Position
import DiceLang.Proofs.Tree.Laid

/-!
# Pieces of a text

A scanner goes through a text step by step.  `CutsOff` says all there is to say of one step: blanks are
passed over, a word that cannot go on is cut off, and the token knows where that was.  `Cuts` is a run
of such steps.

A run of tokens stands over a stretch of the text, from the start of the first to the end of the last.
Cut out and taken as a text of its own, that stretch falls into the same words: this is
`tokenize_piece`.
-/

namespace DiceLang

/-- A step of a scanner passes over blanks and cuts off a word that cannot go on. -/
structure CutsOff (scanner after : Scanner) (token : Token) (gap chars : List Char) : Prop where
  ahead : scanner.ahead = gap ++ (chars ++ after.ahead)
  blank : ∀ c ∈ gap, isBlank c = true
  shaped : Shaped token.kind chars
  ends : Ends token.kind chars after.ahead
  lexeme : token.lexeme = String.ofList chars
  start : token.span.start = scanner.location.after gap
  stop : token.span.stop = token.span.start.after chars
  location : after.location = token.span.stop

/-- The next token is cut off behind some blanks. -/
theorem Scanner.next_cutsOff {scanner after : Scanner} {token : Token}
    (h : scanner.next = (token, after)) (hmore : token.kind ≠ .eof) :
    ∃ gap chars, CutsOff scanner after token gap chars := by
  have hahead := List.takeWhile_append_dropWhile (p := isBlank) (l := scanner.ahead)
  unfold next at h
  split at h
  · cases h
    exact absurd rfl hmore
  · next c text hword =>
      cases h
      have hblank : isBlank c = false := by
        have hhead := List.head?_dropWhile_not isBlank scanner.ahead
        rw [hword] at hhead
        simpa using hhead
      obtain ⟨hshaped, hends⟩ := Lexeme.first_munches hblank text
      refine ⟨_, (Lexeme.first c text).chars, ?_, fun d => List.mem_takeWhile_imp, hshaped, hends, rfl,
        rfl, rfl, rfl⟩
      rw [Lexeme.append_rest, ← hword, hahead]

/-- A scanner cuts off some tokens and has got to another place then. -/
inductive Cuts : Scanner → List Token → Scanner → Prop
  | nil (scanner : Scanner) : Cuts scanner [] scanner
  | cons {scanner after last : Scanner} {token : Token} {tokens : List Token} {gap chars : List Char}
      (hfirst : CutsOff scanner after token gap chars) (hrest : Cuts after tokens last) :
      Cuts scanner (token :: tokens) last

/-- The first tokens of a text are cut off one by one, and leave the others. -/
theorem Scanner.exists_cuts {scanner : Scanner} {front back : List Token}
    (h : scanner.tokens = front ++ back) (hfront : ∀ token ∈ front, token.kind ≠ .eof) :
    ∃ last, Cuts scanner front last ∧ last.tokens = back := by
  induction front generalizing scanner with
  | nil => exact ⟨scanner, .nil scanner, h⟩
  | cons token front ih =>
      obtain ⟨hmore, hothers⟩ := List.forall_mem_cons.mp hfront
      cases hnext : scanner.next with
      | mk first after =>
          rw [tokens_eq hnext] at h
          split at h
          · next hend =>
              rw [(List.cons.inj h).1] at hend
              exact absurd hend hmore
          · obtain ⟨rfl, hrest⟩ := List.cons.inj h
            obtain ⟨gap, chars, hfirst⟩ := next_cutsOff hnext hmore
            obtain ⟨last, hcuts, hlast⟩ := ih hrest hothers
            exact ⟨last, .cons hfirst hcuts, hlast⟩

namespace Cuts

variable {scanner last : Scanner} {token : Token} {tokens : List Token}

/-- A run goes over a front of what is ahead. -/
theorem exists_passed (h : Cuts scanner tokens last) :
    ∃ passed, scanner.ahead = passed ++ last.ahead ∧
      last.location = scanner.location.after passed := by
  induction h with
  | nil => exact ⟨[], rfl, rfl⟩
  | @cons scanner after last token tokens gap chars hfirst _ ih =>
      obtain ⟨passed, hahead, hlocation⟩ := ih
      refine ⟨gap ++ (chars ++ passed), ?_, ?_⟩
      · rw [hfirst.ahead, hahead]
        simp
      · rw [hlocation, hfirst.location, hfirst.stop, hfirst.start, Location.after_append,
          Location.after_append]

/-- Behind some tokens the place is where the last of them stops. -/
theorem location_eq (h : Cuts scanner tokens last) :
    ∀ token ∈ tokens.getLast?, last.location = token.span.stop := by
  induction h with
  | nil => exact nofun
  | @cons scanner after last token tokens gap chars hfirst hrest ih =>
      cases hrest with
      | nil =>
          intro other hother
          cases hother
          exact hfirst.location
      | cons hsecond hothers =>
          rw [List.getLast?_cons_cons]
          exact ih

end Cuts

/-- A word that ends before a text ends before its beginning. -/
theorem Ends.front {kind : Kind} {chars rest more : List Char} (h : Ends kind chars (rest ++ more)) :
    Ends kind chars rest := by
  intro c hc
  refine h c ?_
  rw [List.head?_append, Option.mem_def.mp hc]
  rfl

/-- Blanks may stand before any words. -/
theorem Munches.blanks {gap text : List Char} {ws : List (Kind × List Char)}
    (hgap : ∀ c ∈ gap, isBlank c = true) (h : Munches text ws) : Munches (gap ++ text) ws := by
  induction gap with
  | nil => exact h
  | cons c gap ih =>
      obtain ⟨hblank, hothers⟩ := List.forall_mem_cons.mp hgap
      exact (ih hothers).blank hblank

/-- The word that a step cuts off, before some of the text that follows it. -/
theorem CutsOff.munches {scanner after : Scanner} {token : Token} {gap chars rest more : List Char}
    {ws : List (Kind × List Char)} (h : CutsOff scanner after token gap chars)
    (hahead : after.ahead = rest ++ more) (hrest : Munches rest ws) :
    Munches (chars ++ rest) (token.word :: ws) := by
  have hword : token.word = (token.kind, chars) := by
    rw [Token.word, h.lexeme, String.toList_ofList]
  rw [hword, ← List.nil_append (chars ++ rest)]
  exact .word (List.forall_mem_nil _) h.shaped (Ends.front (hahead ▸ h.ends)) hrest

/-- **The text under a run.**  From the start of the first token to where the scanner has got to, the
text falls into the words of the run. -/
theorem Cuts.exists_body {scanner last : Scanner} {token : Token} {tokens : List Token}
    (h : Cuts scanner (token :: tokens) last) :
    ∃ gap body, scanner.ahead = gap ++ (body ++ last.ahead) ∧ (∀ c ∈ gap, isBlank c = true) ∧
      token.span.start = scanner.location.after gap ∧
      last.location = token.span.start.after body ∧
      Munches body ((token :: tokens).map Token.word) := by
  induction tokens generalizing scanner token with
  | nil =>
      obtain _ | @⟨_, after, _, _, _, gap, chars, hfirst, hrest⟩ := h
      cases hrest
      refine ⟨gap, chars, hfirst.ahead, hfirst.blank, hfirst.start,
        hfirst.location.trans hfirst.stop, ?_⟩
      rw [← List.append_nil chars]
      exact hfirst.munches (List.nil_append _).symm (.done (List.forall_mem_nil _))
  | cons second others ih =>
      obtain _ | @⟨_, after, _, _, _, gap, chars, hfirst, hrest⟩ := h
      obtain ⟨between, body, hahead, hbetween, hstart, hlocation, hmunches⟩ := ih hrest
      refine ⟨gap, chars ++ (between ++ body), ?_, hfirst.blank, hfirst.start, ?_, ?_⟩
      · rw [hfirst.ahead, hahead]
        simp
      · rw [hlocation, hstart, hfirst.location, hfirst.stop, Location.after_append,
          Location.after_append]
      · rw [← List.append_assoc] at hahead
        exact hfirst.munches hahead (hmunches.blanks hbetween)

section Tokenize

variable {text : String} {front piece back : List Token}

/-- Where the tokens of a text have been cut off, the rest is still ahead. -/
theorem exists_cuts_tokenize (h : tokenize text = front ++ back)
    (hfront : ∀ token ∈ front, token.kind ≠ .eof) :
    ∃ (before : List Char) (scanner : Scanner), text.toList = before ++ scanner.ahead ∧
      scanner.location = Location.origin.after before ∧ scanner.tokens = back := by
  obtain ⟨scanner, hcuts, hback⟩ := Scanner.exists_cuts h hfront
  obtain ⟨before, hahead, hlocation⟩ := hcuts.exists_passed
  exact ⟨before, scanner, hahead, hlocation, hback⟩

/-- **A piece by itself.**  The text under a run of tokens, taken as a text of its own, falls into the
same words. -/
theorem tokenize_piece {span : Span} (h : tokenize text = front ++ (piece ++ back))
    (hends : ∀ token ∈ front ++ piece, token.kind ≠ .eof) (hover : Over piece span) :
    ∃ before body after, text.toList = before ++ (body ++ after) ∧
      span.start = Location.origin.after before ∧
      span.stop = Location.origin.after (before ++ body) ∧ Munches body (piece.map Token.word) := by
  obtain ⟨hfront, hpiece⟩ := List.forall_mem_append.mp hends
  obtain ⟨before, scanner, htext, hhere, htokens⟩ := exists_cuts_tokenize h hfront
  obtain ⟨last, hcuts, -⟩ := Scanner.exists_cuts htokens hpiece
  obtain ⟨⟨first, hfirst, hstart⟩, final, hfinal, hstop⟩ := hover
  have hlocation := hcuts.location_eq final hfinal
  obtain ⟨others, rfl⟩ := List.head?_eq_some_iff.mp hfirst
  obtain ⟨gap, body, hahead, -, hbegin, hend, hmunches⟩ := hcuts.exists_body
  refine ⟨before ++ gap, body, last.ahead, ?_, ?_, ?_, hmunches⟩
  · rw [htext, hahead, List.append_assoc]
  · rw [← hstart, hbegin, hhere, Location.after_append]
  · rw [← hstop, ← hlocation, hend, hbegin, hhere, Location.after_append, Location.after_append]

/-- **A token by itself.**  A token of a text stands over its lexeme, which is shaped as its kind
says. -/
theorem exists_cut {token : Token} (htoken : token ∈ tokenize text) (hkind : token.kind ≠ .eof) :
    ∃ before chars after, text.toList = before ++ (chars ++ after) ∧
      token.span.start = Location.origin.after before ∧
      token.span.stop = token.span.start.after chars ∧ token.lexeme = String.ofList chars ∧
      Shaped token.kind chars := by
  obtain ⟨front, back, hsplit⟩ := List.append_of_mem htoken
  have hfront := (hsplit ▸ closed_tokenize text).kind_ne_eof
  obtain ⟨before, scanner, htext, hhere, htokens⟩ := exists_cuts_tokenize hsplit hfront
  have hsingle : scanner.tokens = [token] ++ back := htokens
  obtain ⟨last, hcuts, -⟩ := Scanner.exists_cuts hsingle (List.forall_mem_singleton.mpr hkind)
  obtain _ | @⟨_, after, _, _, _, gap, chars, hfirst, -⟩ := hcuts
  refine ⟨before ++ gap, chars, after.ahead, ?_, ?_, hfirst.stop, hfirst.lexeme, hfirst.shaped⟩
  · rw [htext, hfirst.ahead, List.append_assoc]
  · rw [hfirst.start, hhere, Location.after_append]

end Tokenize

end DiceLang
