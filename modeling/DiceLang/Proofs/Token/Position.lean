import DiceLang.Proofs.Line
import Mathlib.Data.List.Induction

/-!
# Tokens and the text they were cut from

Cutting a text into tokens loses nothing, and every token knows where it stands.  `Covers text
tokens` spells this out: between the tokens there are only blanks, each lexeme is the text under its
span, and every location counts the lines and columns of the text before it.

A scanner that has passed over some front of a text stands at the location after that front.  This
is the invariant of the loop: `Scanner.next_placed` says what one step makes of it, and
`Scanner.tokens_tile` follows for all steps up to the end token.  `tokenize_covers` draws the
conclusion for a whole text.
-/

namespace DiceLang

/-- The characters of a text between two offsets. -/
def slice (text : List Char) (start stop : Nat) : List Char :=
  (text.take stop).drop start

/-- What stands in the middle of a text is a slice of it. -/
theorem slice_append (front middle back : List Char) :
    slice (front ++ (middle ++ back)) front.length (front ++ middle).length = middle := by
  unfold slice
  rw [← List.append_assoc, List.take_left, List.drop_left]

/-- A slice and what stands behind it are all that stands behind its start. -/
theorem slice_append_drop {text : List Char} {start stop : Nat} (h : start ≤ stop) :
    slice text start stop ++ text.drop stop = text.drop start := by
  have hdrop : text.drop stop = (text.drop start).drop (stop - start) := by
    rw [List.drop_drop, Nat.add_sub_cancel' h]
  unfold slice
  rw [List.drop_take, hdrop, List.take_append_drop]

/-- The characters of a text behind its last newline. -/
def lastLine (text : List Char) : List Char :=
  (text.reverse.takeWhile fun c => c != '\n').reverse

namespace Location

/-- A location counts the lines of a text before it, and the columns behind the last newline. -/
structure Exact (text : List Char) (place : Location) : Prop where
  offset : place.offset ≤ text.length
  line : place.line = 1 + (text.take place.offset).count '\n'
  column : place.column = 1 + (lastLine (text.take place.offset)).length

/-- The offset counts the characters before a place. -/
theorem offset_after_origin (text : List Char) : (origin.after text).offset = text.length :=
  (offset_after origin text).trans (Nat.zero_add _)

/-- The number of a line counts the newlines before it. -/
theorem line_after (text : List Char) :
    (origin.after text).line = 1 + text.count '\n' := by
  induction text using List.reverseRecOn with
  | nil => rfl
  | append_singleton text c ih =>
      rw [after_append, after_cons, after_nil, step]
      by_cases hbreak : c = '\n'
      · simp [hbreak, ih, Nat.add_assoc]
      · simp [hbreak, ih]

/-- The column counts the characters since the last newline. -/
theorem column_after (text : List Char) :
    (origin.after text).column = 1 + (lastLine text).length := by
  induction text using List.reverseRecOn with
  | nil => rfl
  | append_singleton text c ih =>
      rw [after_append, after_cons, after_nil, step]
      unfold lastLine at ih ⊢
      by_cases hbreak : c = '\n'
      · simp [hbreak]
      · simp [hbreak, ih, Nat.add_assoc]

/-- **Walking counts.**  The location after a front of a text is exact for the text. -/
theorem exact_after (front back : List Char) : (origin.after front).Exact (front ++ back) := by
  have htake : (front ++ back).take (origin.after front).offset = front := by
    rw [offset_after_origin, List.take_left]
  refine ⟨?_, ?_, ?_⟩
  · rw [offset_after_origin, List.length_append]
    omega
  · rw [htake]
    exact line_after front
  · rw [htake]
    exact column_after front

end Location

/-- A token stands in a text behind nothing but blanks, counted from the offset `here`. -/
structure Placed (text : List Char) (here : Nat) (token : Token) : Prop where
  behind : here ≤ token.span.start.offset
  blank : ∀ c ∈ slice text here token.span.start.offset, isBlank c = true
  forward : token.span.start.offset ≤ token.span.stop.offset
  lexeme : token.lexeme.toList = slice text token.span.start.offset token.span.stop.offset
  empty : token.lexeme = "" ↔ token.kind = .eof
  starts : token.span.start.Exact text
  stops : token.span.stop.Exact text

/-- No word is empty. -/
theorem Lexeme.chars_ne_nil (c : Char) (text : List Char) : (Lexeme.first c text).chars ≠ [] := by
  intro hnone
  have hlength := congrArg List.length (Lexeme.append_rest c text)
  have hrest := Lexeme.rest_length_lt c text
  rw [hnone, List.nil_append] at hlength
  omega

/-- A token is placed if its span goes over its lexeme and blanks lead up to it. -/
theorem placed_of_cut {front gap chars : List Char} (back : List Char) {token : Token}
    (hblank : ∀ c ∈ gap, isBlank c = true)
    (hstart : token.span.start = Location.origin.after (front ++ gap))
    (hstop : token.span.stop = Location.origin.after (front ++ gap ++ chars))
    (hlexeme : token.lexeme = String.ofList chars) (hempty : chars = [] ↔ token.kind = .eof) :
    Placed (front ++ (gap ++ (chars ++ back))) front.length token := by
  have hfront : token.span.start.offset = (front ++ gap).length := by
    rw [hstart, Location.offset_after_origin]
  have hback : token.span.stop.offset = (front ++ gap ++ chars).length := by
    rw [hstop, Location.offset_after_origin]
  refine ⟨?_, ?_, ?_, ?_, ?_, ?_, ?_⟩
  · rw [hfront, List.length_append]
    omega
  · rw [hfront, slice_append]
    exact hblank
  · simp only [hfront, hback, List.length_append]
    omega
  · rw [hfront, hback, ← List.append_assoc front, slice_append, hlexeme, String.toList_ofList]
  · rw [hlexeme, ← hempty]
    exact String.ofList_eq_empty_iff
  · rw [hstart, ← List.append_assoc]
    exact Location.exact_after _ _
  · rw [hstop, ← List.append_assoc, ← List.append_assoc]
    exact Location.exact_after _ _

namespace Scanner

/-- What a scanner is in the midst of: it has passed over `front`, and the rest of `text` is still
ahead. -/
structure Passed (text front : List Char) (scanner : Scanner) : Prop where
  whole : text = front ++ scanner.ahead
  location : scanner.location = Location.origin.after front

/-- **One step.**  The next token is placed behind what has been passed over, and then the token has
been passed over as well.  The end token comes when all of the text has been. -/
theorem next_placed {text front : List Char} {scanner after : Scanner} {token : Token}
    (h : scanner.Passed text front) (hnext : scanner.next = (token, after)) :
    Placed text front.length token ∧
      ∃ passed, after.Passed text passed ∧ token.span.stop.offset = passed.length ∧
        (token.kind = .eof → token.span.start.offset = text.length) := by
  obtain ⟨rfl, hlocation⟩ := h
  have hahead := List.takeWhile_append_dropWhile (p := isBlank) (l := scanner.ahead)
  have hblank : ∀ c ∈ scanner.ahead.takeWhile isBlank, isBlank c = true :=
    fun c hc => List.mem_takeWhile_imp hc
  unfold next at hnext
  rw [hlocation, ← Location.after_append] at hnext
  generalize scanner.ahead.takeWhile isBlank = gap at hahead hblank hnext
  rw [← hahead]
  split at hnext
  · next hend =>
      cases hnext
      rw [hend]
      have hstop : Location.origin.after (front ++ gap) =
          Location.origin.after (front ++ gap ++ []) := by rw [List.append_nil]
      have hempty : ([] : List Char) = [] ↔ Kind.eof = .eof := ⟨fun _ => rfl, fun _ => rfl⟩
      refine ⟨?_, front ++ gap, ?_, ?_, ?_⟩
      · show Placed (front ++ (gap ++ ([] ++ []))) front.length _
        exact placed_of_cut [] hblank rfl hstop rfl hempty
      · exact ⟨by simp, rfl⟩
      · exact Location.offset_after_origin _
      · intro _
        simp [Location.offset_after_origin]
  · next c rest hword =>
      cases hnext
      rw [hword, ← Lexeme.append_rest c rest]
      have hstop : (Location.origin.after (front ++ gap)).after (Lexeme.first c rest).chars =
          Location.origin.after (front ++ gap ++ (Lexeme.first c rest).chars) :=
        (Location.after_append ..).symm
      have hmore : (Lexeme.first c rest).chars = [] ↔ (Lexeme.first c rest).kind = .eof :=
        ⟨fun hnone => absurd hnone (Lexeme.chars_ne_nil c rest),
          fun heof => absurd heof (Lexeme.kind_ne_eof c rest)⟩
      refine ⟨placed_of_cut _ hblank rfl hstop rfl hmore, _, ⟨?_, hstop⟩, ?_, ?_⟩
      · simp
      · rw [hstop, Location.offset_after_origin]
      · exact fun heof => absurd heof (Lexeme.kind_ne_eof c rest)

end Scanner

/-- Tokens stand one behind the other from the offset `here` on, up to the end of the text. -/
inductive Tiles (text : List Char) : (here : Nat) → List Token → Prop
  /-- The last one stands at the end of the text. -/
  | last {here : Nat} {token : Token}
      (hplaced : Placed text here token)
      (hend : token.span.start.offset = text.length) :
      Tiles text here [token]
  /-- A token other than the end token is followed by more. -/
  | cons {here : Nat} {token : Token} {tokens : List Token}
      (hplaced : Placed text here token)
      (hmore : token.kind ≠ .eof)
      (htiles : Tiles text token.span.stop.offset tokens) :
      Tiles text here (token :: tokens)

/-- **All steps.**  The tokens of a scanner stand one behind the other up to the end of the text. -/
theorem Scanner.tokens_tile {text front : List Char} {scanner : Scanner}
    (h : scanner.Passed text front) : Tiles text front.length scanner.tokens := by
  induction scanner using Scanner.tokens.induct generalizing front with
  | case1 scanner token after hnext hend =>
      obtain ⟨hplaced, passed, -, -, hstart⟩ := next_placed h hnext
      rw [tokens_eq hnext, if_pos hend]
      exact .last hplaced (hstart hend)
  | case2 scanner token after hnext hend hshorter ih =>
      obtain ⟨hplaced, passed, hpassed, hstop, -⟩ := next_placed h hnext
      rw [tokens_eq hnext, if_neg hend]
      exact .cons hplaced hend (hstop ▸ ih hpassed)

/-- What stands in front of each token: the text from the end of the token before it, or from `here`
for the first one, up to its own start. -/
def gaps (text : List Char) : (here : Nat) → List Token → List (List Char)
  | _, [] => []
  | here, token :: tokens =>
    slice text here token.span.start.offset :: gaps text token.span.stop.offset tokens

/-- Gaps and lexemes, each gap before its token. -/
def rejoin (gaps : List (List Char)) (tokens : List Token) : List Char :=
  (List.zipWith (fun gap token => gap ++ token.lexeme.toList) gaps tokens).flatten

/-- What it means that tokens account for a text. -/
structure Covers (text : List Char) (tokens : List Token) : Prop where
  /-- The last token is an end token, and no other is. -/
  closed : Grammar.Closed tokens
  /-- A lexeme is the text under the span. -/
  lexemes : ∀ token ∈ tokens,
    token.lexeme.toList = slice text token.span.start.offset token.span.stop.offset
  /-- No lexeme is empty but that of the end token. -/
  nonempty : ∀ token ∈ tokens, token.lexeme = "" ↔ token.kind = .eof
  /-- Spans run forward, and one behind the other. -/
  forward : ∀ token ∈ tokens, token.span.start.offset ≤ token.span.stop.offset
  ordered : tokens.Pairwise fun first second =>
    first.span.stop.offset ≤ second.span.start.offset
  /-- In front of each token there are only blanks. -/
  blank : ∀ gap ∈ gaps text 0 tokens, ∀ c ∈ gap, isBlank c = true
  /-- The end token stands at the end of the text. -/
  finished : ∀ token ∈ tokens, token.kind = .eof →
    token.span.start.offset = text.length ∧ token.span.stop.offset = text.length
  /-- Gaps and lexemes make up the text. -/
  whole : rejoin (gaps text 0 tokens) tokens = text
  /-- Lines and columns are counted right. -/
  places : ∀ token ∈ tokens, token.span.start.Exact text ∧ token.span.stop.Exact text

namespace Tiles

variable {text : List Char} {here : Nat} {tokens : List Token}

/-- Every token of a tiling has its place in the text, behind where the tiling starts. -/
theorem placed (h : Tiles text here tokens) :
    ∀ token ∈ tokens, ∃ place, here ≤ place ∧ Placed text place token := by
  induction h with
  | @last here token hplaced _ =>
      intro other hother
      obtain rfl := List.mem_singleton.mp hother
      exact ⟨here, Nat.le_refl _, hplaced⟩
  | @cons here token tokens hplaced _ _ ih =>
      intro other hother
      rcases List.mem_cons.mp hother with rfl | hother
      · exact ⟨here, Nat.le_refl _, hplaced⟩
      · obtain ⟨place, hplace, hlater⟩ := ih other hother
        have hbehind := hplaced.behind
        have hforward := hplaced.forward
        exact ⟨place, by omega, hlater⟩

/-- The tokens of a tiling stand one behind the other. -/
theorem ordered (h : Tiles text here tokens) :
    tokens.Pairwise fun first second => first.span.stop.offset ≤ second.span.start.offset := by
  induction h with
  | last => exact List.pairwise_singleton ..
  | cons _ _ htiles ih =>
      refine List.pairwise_cons.mpr ⟨?_, ih⟩
      intro later hlater
      obtain ⟨place, hplace, hplaced⟩ := htiles.placed later hlater
      exact Nat.le_trans hplace hplaced.behind

/-- Between the tokens of a tiling there are only blanks. -/
theorem blank (h : Tiles text here tokens) :
    ∀ gap ∈ gaps text here tokens, ∀ c ∈ gap, isBlank c = true := by
  induction h with
  | last hplaced _ => exact List.forall_mem_singleton.mpr hplaced.blank
  | cons hplaced _ _ ih => exact List.forall_mem_cons.mpr ⟨hplaced.blank, ih⟩

/-- **Nothing is lost.**  Gaps and lexemes make up what the tokens stand in. -/
theorem whole (h : Tiles text here tokens) :
    rejoin (gaps text here tokens) tokens = text.drop here := by
  have hgap {here : Nat} {token : Token} (hplaced : Placed text here token) :
      slice text here token.span.start.offset ++ token.lexeme.toList ++
        text.drop token.span.stop.offset = text.drop here := by
    rw [List.append_assoc, hplaced.lexeme, slice_append_drop hplaced.forward,
      slice_append_drop hplaced.behind]
  induction h with
  | @last here token hplaced hend =>
      have hstop : text.drop token.span.stop.offset = [] :=
        List.drop_eq_nil_of_le (hend ▸ hplaced.forward)
      rw [← hgap hplaced, hstop]
      simp [rejoin, gaps]
  | @cons here token tokens hplaced _ _ ih =>
      rw [← hgap hplaced, ← ih]
      simp [rejoin, gaps]

/-- The end token stands at the end of the text. -/
theorem finished (h : Tiles text here tokens) : ∀ token ∈ tokens, token.kind = .eof →
    token.span.start.offset = text.length ∧ token.span.stop.offset = text.length := by
  induction h with
  | @last here token hplaced hend =>
      intro other hother _
      obtain rfl := List.mem_singleton.mp hother
      have hforward := hplaced.forward
      have hbound := hplaced.stops.offset
      exact ⟨hend, by omega⟩
  | cons _ hmore _ ih =>
      intro other hother hkind
      rcases List.mem_cons.mp hother with rfl | hother
      · exact absurd hkind hmore
      · exact ih other hother hkind

end Tiles

/-- **Tokens account for the text.**  The tokens of a text end with the end token, which stands at
its end; each lexeme is the text under its span; the spans follow one another, with only blanks
between them, so that gaps and lexemes make up the text; and all lines and columns are right. -/
theorem tokenize_covers (text : String) : Covers text.toList (tokenize text) := by
  have hstart : (Scanner.ofText text).Passed text.toList [] := ⟨rfl, rfl⟩
  have htiles : Tiles text.toList 0 (tokenize text) := Scanner.tokens_tile hstart
  refine ⟨closed_tokenize text, ?_, ?_, ?_, htiles.ordered, htiles.blank, htiles.finished,
    htiles.whole, ?_⟩
  · intro token htoken
    obtain ⟨place, -, hplaced⟩ := htiles.placed token htoken
    exact hplaced.lexeme
  · intro token htoken
    obtain ⟨place, -, hplaced⟩ := htiles.placed token htoken
    exact hplaced.empty
  · intro token htoken
    obtain ⟨place, -, hplaced⟩ := htiles.placed token htoken
    exact hplaced.forward
  · intro token htoken
    obtain ⟨place, -, hplaced⟩ := htiles.placed token htoken
    exact ⟨hplaced.starts, hplaced.stops⟩

end DiceLang
