import DiceLang.Proofs.Offence
import DiceLang.Proofs.Token.Piece

/-!
# What a report shows

The report of a mistake quotes a line of the text and puts carets below it.  Three counts meet there:
a scanner has counted lines and columns, the text is split into lines, and the carets are counted out
from a column.  That they agree comes down to one fact about a place in a text, `getElem?_splitOn`: the
line with its number consists of what stands before the place since the last newline and of what stands
behind it up to the next.

`Underlined` says what is to be seen, `exists_underlined` that it is for every token, and
`Line.parse_underlines` that the reports of misread texts show it.
-/

namespace DiceLang

section Lines

variable {front : List Char}

/-- A text is split into lines at its newlines. -/
theorem splitLines_eq_splitOn (text : List Char) : splitLines text = text.splitOn '\n' := by
  induction text with
  | nil => rfl
  | cons c text ih =>
      obtain ⟨line, lines, hlines⟩ :=
        List.exists_cons_of_ne_nil (List.splitOn_ne_nil '\n' text)
      rw [splitLines, List.splitOn_cons_eq_if_modifyHead, ih, hlines]
      simp

/-- A text without a newline is its own last line. -/
theorem lastLine_of_not_mem (h : '\n' ∉ front) : lastLine front = front := by
  have hline : ∀ c ∈ front.reverse, (c != '\n') = true := by
    intro c hc
    simpa using ne_of_mem_of_not_mem (List.mem_reverse.mp hc) h
  rw [lastLine, List.takeWhile_eq_self_iff.mpr hline, List.reverse_reverse]

/-- Nothing that is followed by a newline belongs to the last line, nor does the newline. -/
theorem lastLine_cons {c : Char} (h : '\n' ∈ c :: front) :
    lastLine (c :: front) = lastLine front := by
  unfold lastLine
  rw [List.reverse_cons, List.takeWhile_append]
  split
  · next hall =>
      have hwhole := (List.takeWhile_prefix fun c => c != '\n').eq_of_length hall
      have hnone : '\n' ∉ front := fun hmem => by
        simpa using List.takeWhile_eq_self_iff.mp hwhole '\n' (List.mem_reverse.mpr hmem)
      obtain rfl : '\n' = c := (List.mem_cons.mp h).resolve_right hnone
      rw [hwhole]
      simp
  · rfl

/-- The first line of a text stands before its first newline. -/
theorem getElem?_splitOn_zero (text : List Char) :
    (text.splitOn '\n')[0]? = some (text.takeWhile fun c => c != '\n') := by
  induction text with
  | nil => rfl
  | cons c text ih =>
      rw [List.splitOn_cons_eq_if_modifyHead]
      by_cases hbreak : c = '\n'
      · simp [hbreak]
      · simp [hbreak, List.getElem?_modifyHead, ih]

/-- **The line of a place.**  As many newlines into a text as stand before a place, there is the line
that the place is on. -/
theorem getElem?_splitOn (front back : List Char) :
    ((front ++ back).splitOn '\n')[front.count '\n']? =
      some (lastLine front ++ back.takeWhile fun c => c != '\n') := by
  induction front with
  | nil => exact getElem?_splitOn_zero back
  | cons c front ih =>
      rw [List.cons_append, List.splitOn_cons_eq_if_modifyHead]
      by_cases hbreak : c = '\n'
      · subst hbreak
        rw [if_pos (beq_self_eq_true _), List.count_cons_self, List.getElem?_cons_succ, ih,
          lastLine_cons List.mem_cons_self]
      · rw [if_neg (by simpa using hbreak), List.count_cons_of_ne hbreak,
          List.getElem?_modifyHead, ih]
        by_cases hmem : '\n' ∈ front
        · rw [if_neg (List.count_pos_iff.mpr hmem).ne', lastLine_cons (List.mem_cons_of_mem c hmem)]
        · have hnone : '\n' ∉ c :: front := by
            simpa [hmem] using Ne.symm hbreak
          rw [if_pos (List.count_eq_zero.mpr hmem), lastLine_of_not_mem hmem,
            lastLine_of_not_mem hnone]
          rfl

end Lines

namespace Location

/-- Characters other than newlines only move a place along its line. -/
theorem after_of_not_mem (here : Location) {chars : List Char} (h : '\n' ∉ chars) :
    here.after chars = ⟨here.line, here.column + chars.length, here.offset + chars.length⟩ := by
  induction chars generalizing here with
  | nil => rfl
  | cons c chars ih =>
      have hfirst : c ≠ '\n' := fun hbreak => h (hbreak ▸ List.mem_cons_self)
      have hothers : '\n' ∉ chars := fun hmem => h (List.mem_cons_of_mem c hmem)
      rw [after_cons, ih _ hothers, step, if_neg hfirst, List.length_cons]
      simp only [mk.injEq, true_and]
      omega

/-- No place further on is on an earlier line. -/
theorem line_le_after (here : Location) (chars : List Char) :
    here.line ≤ (here.after chars).line := by
  induction chars generalizing here with
  | nil => exact Nat.le_refl _
  | cons c chars ih =>
      rw [after_cons]
      refine Nat.le_trans ?_ (ih _)
      unfold step
      split
      · exact Nat.le_succ _
      · exact Nat.le_refl _

end Location

namespace Diagnostic

variable {span : Span} {chars : List Char}

/-- The carets below what does not reach beyond its line are as many as its characters. -/
theorem caretCount_of_not_mem (line : String) (hstop : span.stop = span.start.after chars)
    (hsome : chars ≠ []) (h : '\n' ∉ chars) : caretCount span line = chars.length := by
  have hpos : 0 < chars.length := List.length_pos_iff.mpr hsome
  rw [Location.after_of_not_mem _ h] at hstop
  simp only [caretCount, hstop, if_true]
  omega

/-- There is one caret below what begins with the end of its line. -/
theorem caretCount_of_newline {line : String} (hstop : span.stop = span.start.after ('\n' :: chars))
    (hend : line.length ≤ span.start.column - 1) : caretCount span line = 1 := by
  have hlater : span.start.line < span.stop.line := by
    rw [hstop, Location.after_cons]
    exact Location.line_le_after (span.start.step '\n') chars
  simp only [caretCount, if_neg hlater.ne]
  omega

end Diagnostic

section Tokens

variable {text : String} {token : Token} {kind : Kind} {chars : List Char}

/-- Only line breaks hold a newline. -/
theorem Shaped.newline_not_mem (h : Shaped kind chars) (hkind : kind ≠ .separator) :
    '\n' ∉ chars := by
  intro hmem
  cases h with
  | number _ hdigits => exact absurd (hdigits _ hmem) (by decide)
  | identifier _ hletters => exact absurd (hletters _ hmem) (by decide)
  | separator => exact hkind rfl
  | sign hspelt => exact absurd (not_run_of_spelt hspelt hmem).1 (by decide)
  | illegal hlayout =>
      rw [← List.mem_singleton.mp hmem] at hlayout
      exact absurd hlayout (by decide)

/-- A line break starts with a newline. -/
theorem Shaped.exists_layout (h : Shaped .separator chars) : ∃ layout, chars = '\n' :: layout := by
  cases h with
  | separator => exact ⟨_, rfl⟩
  | sign hspelt => cases hspelt

/-- So many carets, counted out from the column of a token below the line on which it starts, show
just this token.  They go over its lexeme; a separator begins where its line ends, and there is one
caret for it right behind that line. -/
structure Underlined (text : List Char) (token : Token) (line : List Char) (carets : Nat) :
    Prop where
  starts : token.span.start.Exact text
  quoted : (text.splitOn '\n')[token.span.start.line - 1]? = some line
  word : token.kind ≠ .separator → carets = token.lexeme.length ∧
    slice line (token.span.start.column - 1) (token.span.start.column - 1 + carets) =
      token.lexeme.toList
  lineBreak : token.kind = .separator → carets = 1 ∧ token.span.start.column - 1 = line.length

/-- **Tokens are underlined.**  The line that is quoted for a token is that on which it starts, and as
many carets as are put below show the token. -/
theorem exists_underlined (htoken : token ∈ tokenize text) (hkind : token.kind ≠ .eof) :
    ∃ line, lineOf? text token.span.start.line = some line ∧
      Underlined text.toList token line.toList (Diagnostic.caretCount token.span line) := by
  obtain ⟨before, chars, after, htext, hstart, hstop, hlexeme, hshaped⟩ := exists_cut htoken hkind
  have hnumber : token.span.start.line = before.count '\n' + 1 := by
    rw [hstart, Location.line_after, Nat.add_comm]
  have hcolumn : token.span.start.column - 1 = (lastLine before).length := by
    rw [hstart, Location.column_after, Nat.add_sub_cancel_left]
  have hline := getElem?_splitOn before (chars ++ after)
  rw [← htext] at hline
  generalize hrest : (chars ++ after).takeWhile (fun c => c != '\n') = rest at hline
  refine ⟨String.ofList (lastLine before ++ rest), ?_, ?_, ?_, ?_, ?_⟩
  · rw [hnumber, lineOf?, splitLines_eq_splitOn, hline]
    rfl
  · rw [htext, hstart]
    exact Location.exact_after before _
  · rw [hnumber, String.toList_ofList]
    exact hline
  · intro hword
    have hnone := hshaped.newline_not_mem hword
    obtain ⟨c, others, hchars⟩ := hshaped.exists_cons
    have hunder : rest = chars ++ after.takeWhile fun c => c != '\n' := by
      rw [← hrest]
      refine List.takeWhile_append_of_pos fun d hd => ?_
      simpa using ne_of_mem_of_not_mem hd hnone
    have hcount := Diagnostic.caretCount_of_not_mem (String.ofList (lastLine before ++ rest)) hstop
      (hchars ▸ List.cons_ne_nil c others) hnone
    rw [hcount, hcolumn, hlexeme, String.length_ofList, String.toList_ofList, String.toList_ofList,
      ← List.length_append, hunder, slice_append]
    exact ⟨rfl, rfl⟩
  · intro hbreak
    obtain ⟨layout, rfl⟩ := (hbreak ▸ hshaped).exists_layout
    have hend : rest = [] := by
      rw [← hrest]
      rfl
    rw [hend, List.append_nil, hcolumn, String.toList_ofList]
    refine ⟨Diagnostic.caretCount_of_newline hstop ?_, rfl⟩
    rw [hcolumn, String.length_ofList]

end Tokens

section Reports

open Grammar

variable {limit : Nat} {text : String} {tokens : List Token} {fault mistake : Fault}

/-- A mistake other than parentheses that are nested too deeply is due to one of the tokens, which is
the end token only if the list ends too early. -/
theorem Grammar.Recognises.exists_offender {α : Type} {accepted : List Token → Prop}
    {read : Nat → List Token → Except Failure α} (h : Recognises accepted read)
    (hclosed : Closed tokens) (hfail : read limit tokens = .error (.fault mistake))
    (hdeep : mistake.cause ≠ .nesting) :
    ∃ token ∈ tokens, mistake.span = some token.span ∧
      (mistake.cause.code = "E102" ↔ token.kind = .eof) := by
  have hnested : ¬ TooDeep (.fault mistake) := by
    rintro ⟨span, hnesting⟩
    cases hnesting
    exact hdeep rfl
  obtain ⟨front, token, back, rfl, hhalts⟩ := h.exists_halt hclosed hfail hnested
  rcases hhalts.stops.overlong_or_eq_fault with ⟨hlimit, -⟩ | ⟨other, hother, hspan, -, heof, -⟩
  · cases hlimit
  · cases hother
    exact ⟨token, by simp, hspan, heof⟩

/-- A mistake in a line points at one of its tokens, and E102 points at the end. -/
theorem Line.exists_offender (hclosed : Closed tokens)
    (h : Line.ofTokens limit tokens = .error (.fault mistake)) (hdeep : mistake.cause ≠ .nesting) :
    ∃ token ∈ tokens, mistake.span = some token.span ∧
      (mistake.cause.code = "E102" ↔ token.kind = .eof) := by
  unfold Line.ofTokens at h
  split at h
  · exact recognises_blocks.exists_offender hclosed (map_eq_error h) hdeep
  · exact recognises_expressions.exists_offender hclosed (map_eq_error h) hdeep

/-- Every mistake quotes the line of its span, except where a text ends too early. -/
theorem Fault.quoting_eq (text : String) (h : mistake.cause.code ≠ "E102") :
    mistake.quoting text =
      { mistake with sourceLine := mistake.span.bind fun span => lineOf? text span.start.line } := by
  unfold Fault.quoting
  split
  · next hcause =>
      rw [hcause] at h
      exact absurd rfl h
  · rfl

/-- The report of a fault whose place and line are known. -/
theorem Fault.text_eq {span : Span} {line : String} (hspan : fault.span = some span)
    (hline : fault.sourceLine = some line) :
    fault.text = "\n".intercalate
      ([Nat.repr span.start.line ++ ":" ++ Nat.repr span.start.column ++ ": error[" ++
          fault.cause.code ++ "]: " ++ fault.cause.message,
        "  |",
        Diagnostic.lineNumber span.start.line ++ " | " ++ line,
        "    | " ++ Diagnostic.times (span.start.column - 1) ' ' ++
          Diagnostic.times (Diagnostic.caretCount span line) '^'] ++
        fault.cause.hints.map ("    = hint: " ++ ·)) := by
  have hmark : ": error[" = ": " ++ (Diagnostic.severity ++ "[") := rfl
  simp only [Fault.text, Diagnostic.text, Diagnostic.format, Diagnostic.lines, Fault.diagnostic,
    Diagnostic.header, Diagnostic.excerpt, Location.text, hspan, hline, hmark, String.append_assoc,
    List.cons_append]

/-- **Mistakes are shown.**  A text that is refused with E101, E103, E104 or E105 has a token at fault.
The report gives the line and column at which this token starts and quotes that line, and the carets
below, counted out from that column, show the token. -/
theorem Line.parse_underlines (h : Line.parse text = .error (.fault fault))
    (hcode : fault.cause.code ∈ ["E101", "E103", "E104", "E105"]) :
    ∃ token ∈ tokenize text, ∃ line carets, fault.span = some token.span ∧
      fault.sourceLine = some line ∧ Underlined text.toList token line.toList carets ∧
      fault.text = "\n".intercalate
        ([Nat.repr token.span.start.line ++ ":" ++ Nat.repr token.span.start.column ++
            ": error[" ++ fault.cause.code ++ "]: " ++ fault.cause.message,
          "  |",
          Diagnostic.lineNumber token.span.start.line ++ " | " ++ line,
          "    | " ++ Diagnostic.times (token.span.start.column - 1) ' ' ++
            Diagnostic.times carets '^'] ++
          fault.cause.hints.map ("    = hint: " ++ ·)) := by
  obtain ⟨failure, hfail, hquoting⟩ := mapError_eq_error h
  cases failure with
  | fault mistake =>
      obtain rfl : mistake.quoting text = fault := Failure.fault.inj hquoting
      rw [Fault.cause_quoting] at hcode ⊢
      have hended : mistake.cause.code ≠ "E102" := by
        intro hended
        simp [hended] at hcode
      have hdeep : mistake.cause ≠ .nesting := by
        intro hdeep
        simp [hdeep, Cause.code] at hcode
      obtain ⟨token, htoken, hspan, heof⟩ := Line.exists_offender (closed_tokenize text) hfail hdeep
      have hkind : token.kind ≠ .eof := fun hkind => hended (heof.mpr hkind)
      obtain ⟨line, hline, hunderlined⟩ := exists_underlined htoken hkind
      rw [Fault.quoting_eq text hended, hspan]
      exact ⟨token, htoken, line, _, rfl, hline, hunderlined, Fault.text_eq rfl hline⟩
  | digitLimit | notExpression | tooDeep | mishap | withheld => cases hquoting

/-- A definition must not go on in the next line.  The carriage return belongs to the line that is
quoted, and the caret for the line break stands behind it. -/
theorem Line.parse_underlines_lineBreak :
    ∃ fault, Line.parse "go =>\r\n1" = .error (.fault fault) ∧
      fault.cause.code ∈ ["E101", "E103", "E104", "E105"] ∧
      fault.text = "1:7: error[E101]: expected number or '(', found newline\n  |\n" ++
        "  1 | go =>\r\n    |       ^" ∧
      ∃ token ∈ tokenize "go =>\r\n1", ∃ line carets, fault.span = some token.span ∧
        fault.sourceLine = some line ∧
        Underlined "go =>\r\n1".toList token line.toList carets := by
  let place : Span := ⟨⟨1, 7, 6⟩, ⟨2, 1, 7⟩⟩
  let fault : Fault := ⟨.unexpected .number ⟨.separator, "\n", place⟩, some place, some "go =>\r"⟩
  have hparse : Line.parse "go =>\r\n1" = .error (.fault fault) :=
    map_eq_error (f := fun _ => ()) (by decide +kernel)
  have hcode : fault.cause.code ∈ ["E101", "E103", "E104", "E105"] := by decide
  obtain ⟨token, htoken, line, carets, hspan, hline, hunderlined, -⟩ :=
    Line.parse_underlines hparse hcode
  exact ⟨fault, hparse, hcode, by decide +kernel, token, htoken, line, carets, hspan, hline,
    hunderlined⟩

end Reports

end DiceLang
