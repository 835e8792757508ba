import DiceLang.Proofs.Report

/-!
# Where the caret stands

A report quotes a line behind its number and a bar, and points at a character of it by a caret in the
row below.  The caret is counted out behind a margin of its own.  That margin is as wide as a number of
three digits needs, so a number with more digits moves its line to the right and leaves the caret where
it is.

`Shows` tells the rows of a report apart, `Fault.shows` says that a report has them, and
`caret_under_iff` tells when the caret stands under its character and how far it is off otherwise.
-/

namespace DiceLang

theorem newline_not_mem_takeWhile (text : List Char) :
    '\n' ∉ text.takeWhile fun c => c != '\n' := by
  intro hmem
  simpa using List.mem_takeWhile_imp hmem

/-- The character at a place stands at its column of its line, or ends that line. -/
theorem exists_line (front : List Char) (c : Char) (back : List Char) :
    ∃ line, ((front ++ c :: back).splitOn '\n')[(Location.origin.after front).line - 1]? = some line ∧
      '\n' ∉ line ∧ (line ++ ['\n'])[(Location.origin.after front).column - 1]? = some c := by
  refine ⟨lastLine front ++ (c :: back).takeWhile fun c => c != '\n', ?_, ?_, ?_⟩
  · rw [Location.line_after, Nat.add_sub_cancel_left]
    exact getElem?_splitOn front (c :: back)
  · rw [List.mem_append, lastLine, List.mem_reverse]
    exact not_or.mpr ⟨newline_not_mem_takeWhile _, newline_not_mem_takeWhile _⟩
  · rw [Location.column_after, Nat.add_sub_cancel_left, List.append_assoc,
      List.getElem?_append_right (Nat.le_refl _), Nat.sub_self, List.takeWhile_cons]
    by_cases hbreak : c = '\n'
    · simp [hbreak]
    · simp [hbreak]

/-- The lines of a text are numbered from one. -/
theorem lineOf?_eq {text : String} {number : Nat} (hnumber : 0 < number) :
    lineOf? text number = (text.toList.splitOn '\n')[number - 1]?.map String.ofList := by
  cases number with
  | zero => exact absurd hnumber (Nat.lt_irrefl 0)
  | succ n => rw [lineOf?, splitLines_eq_splitOn, Nat.add_sub_cancel]

/-- Rows that are joined by newlines come apart again, those with newlines of their own into several. -/
theorem splitOn_intercalate_eq_flatMap {rows : List (List Char)} (h : rows ≠ []) :
    (['\n'].intercalate rows).splitOn '\n' = rows.flatMap fun row => row.splitOn '\n' := by
  induction rows with
  | nil => exact absurd rfl h
  | cons row rows ih =>
      cases rows with
      | nil => simp
      | cons next rows =>
          rw [List.intercalate_cons_cons, List.append_assoc, List.singleton_append,
            List.splitOn_append_cons_self, ih (List.cons_ne_nil _ _)]
          rfl

namespace Diagnostic

/-- The number of a line and the bar behind it. -/
def margin (number : Nat) : List Char :=
  List.leftpad 3 ' ' (Nat.toDigits 10 number) ++ [' ', '|', ' ']

/-- The bar before carets, which is the margin of their row. -/
def caretMargin : List Char := [' ', ' ', ' ', ' ', '|', ' ']

/-- A number takes three places, or as many as it has digits. -/
theorem length_margin (number : Nat) :
    (margin number).length = max 3 (Nat.toDigits 10 number).length + 3 := by
  rw [margin, List.length_append, List.length_leftpad]
  rfl

theorem newline_not_mem_margin (number : Nat) : '\n' ∉ margin number := by
  intro hmem
  rw [margin, List.leftpad, List.mem_append, List.mem_append] at hmem
  rcases hmem with (hblank | hdigit) | hbar
  · exact absurd (List.eq_of_mem_replicate hblank) (by decide)
  · exact absurd (Nat.isDigit_of_mem_toDigits (by decide) (by decide) hdigit) (by decide)
  · exact absurd hbar (by decide)

/-- The row of the carets below a span. -/
def caretRow (span : Span) (line : String) : List Char :=
  caretMargin ++ (List.replicate (span.start.column - 1) ' ' ++
    List.replicate (caretCount span line) '^')

theorem newline_not_mem_caretRow (span : Span) (line : String) : '\n' ∉ caretRow span line := by
  intro hmem
  rw [caretRow, List.mem_append, List.mem_append] at hmem
  rcases hmem with hmargin | hblank | hcaret
  · exact absurd hmargin (by decide)
  · exact absurd (List.eq_of_mem_replicate hblank) (by decide)
  · exact absurd (List.eq_of_mem_replicate hcaret) (by decide)

theorem caretCount_pos (span : Span) (line : String) : 0 < caretCount span line :=
  Nat.lt_of_lt_of_le Nat.one_pos (Nat.le_max_left _ _)

/-- The row of carets has a caret in it. -/
theorem caret_mem_caretRow (span : Span) (line : String) : '^' ∈ caretRow span line := by
  rw [caretRow, List.mem_append, List.mem_append]
  exact .inr (.inr (List.mem_replicate.mpr ⟨(caretCount_pos span line).ne', rfl⟩))

/-- The first caret stands behind the margin and as many columns as there are before the span. -/
theorem idxOf_caretRow (span : Span) (line : String) :
    (caretRow span line).idxOf '^' = 6 + (span.start.column - 1) := by
  have hmargin : '^' ∉ caretMargin := by decide
  have hblank : '^' ∉ List.replicate (span.start.column - 1) ' ' := by
    intro hmem
    exact absurd (List.eq_of_mem_replicate hmem) (by decide)
  obtain ⟨others, hothers⟩ := Nat.exists_eq_add_of_lt (caretCount_pos span line)
  rw [caretRow, hothers, List.idxOf_append_of_notMem hmargin, List.idxOf_append_of_notMem hblank,
    List.length_replicate, Nat.zero_add, List.replicate_succ, List.idxOf_cons_self, Nat.add_zero]
  rfl

/-- The bar above the line that is quoted. -/
def topBar : List Char := [' ', ' ', '|']

/-- The excerpt is a bar, the line behind its margin and the row of carets. -/
theorem toList_excerpt (span : Span) (line : String) :
    (excerpt span line).map String.toList =
      [topBar, margin span.start.line ++ line.toList, caretRow span line] := by
  have htop : "  |".toList = topBar := rfl
  have hbar : " | ".toList = [' ', '|', ' '] := rfl
  have hcarets : "    | ".toList = caretMargin := rfl
  simp only [excerpt, lineNumber, times, margin, caretRow, List.map_cons, List.map_nil,
    String.toList_append, String.toList_ofList, List.append_assoc, htop, hbar, hcarets]

/-- A report with a span and a line is its header, the excerpt and the hints. -/
theorem lines_eq {diagnostic : Diagnostic} {span : Span} {line : String}
    (hspan : diagnostic.span = some span) (hline : diagnostic.sourceLine = some line) :
    diagnostic.lines true = diagnostic.header ::
      (excerpt span line ++ diagnostic.hints.map ("    = hint: " ++ ·)) := by
  simp only [lines, hspan, hline]

end Diagnostic

/-- How a report shows a place of a text.  Behind its header and a bar come two rows: the line of the
place behind a margin, in which the character at the place stands as far behind the margin as its
column says, and a row with carets. -/
structure Shows (report header text : List Char) (place : Location)
    (margin line carets : List Char) : Prop where
  rows : header.splitOn '\n' ++ [Diagnostic.topBar, margin ++ line, carets] <+: report.splitOn '\n'
  quoted : (text.splitOn '\n')[place.line - 1]? = some line
  within : place.offset < text.length
  character : (margin ++ line ++ ['\n'])[margin.length + (place.column - 1)]? = text[place.offset]?

section Reports

open Grammar

variable {text : String} {token : Token} {fault : Fault}

/-- The rows of a report that quotes a line. -/
theorem Fault.rows_prefix {span : Span} {line : List Char} (hspan : fault.span = some span)
    (hline : fault.sourceLine = some (String.ofList line)) (hnone : '\n' ∉ line) :
    fault.diagnostic.header.toList.splitOn '\n' ++
        [Diagnostic.topBar, Diagnostic.margin span.start.line ++ line,
          Diagnostic.caretRow span (String.ofList line)] <+: fault.text.toList.splitOn '\n' := by
  have hquoted : '\n' ∉ Diagnostic.margin span.start.line ++ line := by
    rw [List.mem_append]
    exact not_or.mpr ⟨Diagnostic.newline_not_mem_margin _, hnone⟩
  have hcarets := Diagnostic.newline_not_mem_caretRow span (String.ofList line)
  have hbreak : "\n".toList = ['\n'] := rfl
  have hbar : Diagnostic.topBar.splitOn '\n' = [Diagnostic.topBar] := rfl
  rw [Fault.text, Diagnostic.text, Diagnostic.format, String.toList_intercalate,
    Diagnostic.lines_eq hspan hline, hbreak, List.map_cons, List.map_append,
    Diagnostic.toList_excerpt, String.toList_ofList,
    splitOn_intercalate_eq_flatMap (List.cons_ne_nil _ _), List.flatMap_cons, List.flatMap_append]
  simp only [List.flatMap_cons, List.flatMap_nil, hbar, List.splitOn_eq_singleton hquoted,
    List.splitOn_eq_singleton hcarets]
  rw [List.prefix_append_right_inj]
  exact List.prefix_append _ _

/-- The report of a fault at a token shows where the token starts. -/
theorem Fault.shows (htoken : token ∈ tokenize text) (hkind : token.kind ≠ .eof)
    (hspan : fault.span = some token.span)
    (hline : fault.sourceLine = lineOf? text token.span.start.line) :
    ∃ line, Shows fault.text.toList fault.diagnostic.header.toList text.toList token.span.start
      (Diagnostic.margin token.span.start.line) line
      (Diagnostic.caretRow token.span (String.ofList line)) := by
  obtain ⟨front, chars, back, htext, hstart, -, -, hshaped⟩ := exists_cut htoken hkind
  obtain ⟨c, others, rfl⟩ := hshaped.exists_cons
  rw [List.cons_append] at htext
  obtain ⟨line, hquoted, hnone, hcharacter⟩ := exists_line front c (others ++ back)
  rw [← htext, ← hstart] at hquoted
  rw [← hstart] at hcharacter
  have hnumber : 0 < token.span.start.line := by
    rw [hstart, Location.line_after]
    omega
  have hoffset : token.span.start.offset = front.length := by
    rw [hstart, Location.offset_after_origin]
  rw [lineOf?_eq hnumber, hquoted] at hline
  refine ⟨line, ?_, hquoted, ?_, ?_⟩
  · exact Fault.rows_prefix hspan hline hnone
  · rw [hoffset, htext, List.length_append, List.length_cons]
    omega
  · rw [List.append_assoc, List.getElem?_append_right (Nat.le_add_right _ _), Nat.add_sub_cancel_left,
      hcharacter, hoffset, htext, List.getElem?_append_right (Nat.le_refl _), Nat.sub_self]
    rfl

/-- A text that cannot be read has a token at fault, unless parentheses are nested too deeply or it
ends too early. -/
theorem Grammar.Recognises.exists_quoted {α : Type} {accepted : List Token → Prop}
    {read : Nat → List Token → Except Failure α} {limit : Nat} (hread : Recognises accepted read)
    (h : (read limit (tokenize text)).mapError (Failure.quoting text) = .error (.fault fault))
    (hcode : fault.cause.code ∈ ["E101", "E103", "E104", "E105"]) :
    ∃ token ∈ tokenize text, token.kind ≠ .eof ∧ fault.span = some token.span ∧
      fault.sourceLine = lineOf? text token.span.start.line := by
  obtain ⟨failure, hfail, hquoting⟩ := mapError_eq_error h
  cases failure with
  | fault mistake =>
      obtain rfl : mistake.quoting text = fault := Failure.fault.inj hquoting
      rw [Fault.cause_quoting] at hcode
      have hended : mistake.cause.code ≠ "E102" := by
        intro hended
        simp [hended] at hcode
      have hdeep : mistake.cause ≠ .nesting := by
        intro hdeep
        simp [hdeep, Cause.code] at hcode
      obtain ⟨token, htoken, hspan, heof⟩ :=
        hread.exists_offender (closed_tokenize text) hfail hdeep
      rw [Fault.quoting_eq text hended, hspan]
      exact ⟨token, htoken, fun hkind => hended (heof.mpr hkind), rfl, rfl⟩
  | digitLimit | notExpression | tooDeep | mishap | withheld => cases hquoting

/-- **The caret stands under its character in the first 999 lines.**  Take a text that is refused with
E101, E103, E104 or E105, be it read as an expression or as a block of definitions.  Its report shows
the place at fault.  The character there stands as many positions to the right of the first caret as
the number of its line has more than three digits, so the two stand at the same position if and only if
that number is below 1000. -/
theorem caret_under_iff
    (h : Tree.parse text = .error (.fault fault) ∨ Program.parse text = .error (.fault fault))
    (hcode : fault.cause.code ∈ ["E101", "E103", "E104", "E105"]) :
    ∃ span margin line carets, fault.span = some span ∧
      Shows fault.text.toList fault.diagnostic.header.toList text.toList span.start margin line
        carets ∧
      '^' ∈ carets ∧
      margin.length + (span.start.column - 1) =
        carets.idxOf '^' + ((Nat.toDigits 10 span.start.line).length - 3) ∧
      (carets.idxOf '^' = margin.length + (span.start.column - 1) ↔ span.start.line < 1000) := by
  have hquoted : ∃ token ∈ tokenize text, token.kind ≠ .eof ∧ fault.span = some token.span ∧
      fault.sourceLine = lineOf? text token.span.start.line := by
    rcases h with h | h
    · exact recognises_expressions.exists_quoted h hcode
    · exact recognises_blocks.exists_quoted h hcode
  obtain ⟨token, htoken, hkind, hspan, hline⟩ := hquoted
  obtain ⟨line, hshows⟩ := Fault.shows htoken hkind hspan hline
  have hmargin := Diagnostic.length_margin token.span.start.line
  have hcaret := Diagnostic.idxOf_caretRow token.span (String.ofList line)
  have hdigits : (Nat.toDigits 10 token.span.start.line).length ≤ 3 ↔ token.span.start.line < 1000 :=
    Nat.length_toDigits_le_iff (by decide) (by decide)
  refine ⟨token.span, _, line, _, hspan, hshows, ?_, ?_, ?_⟩
  · exact Diagnostic.caret_mem_caretRow _ _
  · omega
  · omega

/-- A sign that begins no definition, behind so many line breaks. -/
def strayPlus (breaks : Nat) : String :=
  String.ofList (List.replicate breaks '\n' ++ ['+'])

/-- The place of the sign. -/
def strayPlace (breaks : Nat) : Span :=
  ⟨⟨breaks + 1, 1, breaks⟩, ⟨breaks + 1, 2, breaks + 1⟩⟩

/-- What is found to be wrong with it. -/
def strayFault (breaks : Nat) : Fault :=
  ⟨.unexpected .commandNameOrQuote ⟨.plus, "+", strayPlace breaks⟩, strayPlace breaks, some "+"⟩

/-- Behind some line breaks a new line starts. -/
theorem after_breaks (breaks : Nat) :
    Location.origin.after (List.replicate breaks '\n') = ⟨breaks + 1, 1, breaks⟩ := by
  induction breaks with
  | zero => rfl
  | succ breaks ih => rw [List.replicate_succ', Location.after_append, ih]; rfl

/-- Behind the line breaks a text with a stray sign starts with that sign. -/
theorem tokenize_strayPlus (breaks : Nat) : ∃ gap others, tokenize (strayPlus (breaks + 1)) =
    ⟨.separator, gap, .origin, (strayPlace (breaks + 1)).start⟩ ::
      ⟨.plus, "+", strayPlace (breaks + 1)⟩ :: others := by
  have hgap : Lexeme.first '\n' (List.replicate breaks '\n' ++ ['+']) =
      ⟨.separator, '\n' :: List.replicate breaks '\n', ['+']⟩ := by
    refine Lexeme.run_append .separator (fun d hd => ?_) (fun d hd => ?_)
    · rw [List.eq_of_mem_replicate hd]
      rfl
    · obtain rfl : '+' = d := Option.some.inj hd
      rfl
  have hplus : Lexeme.first '+' ([] ++ []) = ⟨.plus, ['+'], []⟩ := rfl
  have hfirst := Scanner.tokens_word rfl hgap .origin
  have hsecond := Scanner.tokens_word rfl hplus (strayPlace (breaks + 1)).start
  rw [← List.replicate_succ, after_breaks] at hfirst
  rw [tokenize, Scanner.ofText, strayPlus, String.toList_ofList, hfirst]
  exact ⟨_, _, congrArg _ hsecond⟩

/-- It is refused at that sign, for want of a name. -/
theorem parse_strayPlus (breaks : Nat) :
    Program.parse (strayPlus (breaks + 1)) = .error (.fault (strayFault (breaks + 1))) := by
  obtain ⟨gap, others, htokens⟩ := tokenize_strayPlus breaks
  have hline : lineOf? (strayPlus (breaks + 1)) (breaks + 1 + 1) = some "+" := by
    have hquoted := getElem?_splitOn (List.replicate (breaks + 1) '\n') ['+']
    rw [List.count_replicate_self] at hquoted
    rw [lineOf?, splitLines_eq_splitOn, strayPlus, String.toList_ofList, hquoted]
    simp [lastLine]
  have hmore : ¬ atEnd (⟨.plus, "+", strayPlace (breaks + 1)⟩ :: others) = true :=
    Bool.false_ne_true
  rw [Program.parse, htokens]
  show Except.mapError _ (Grammar.definitions _ (_ :: others) >>= _) = _
  rw [Grammar.definitions, if_neg hmore]
  show Except.error (Failure.fault ⟨_, _, lineOf? _ (breaks + 1 + 1)⟩) = _
  rw [hline]
  rfl

/-- On line 1000 the caret stands one position to the left of the sign. -/
theorem caret_under_iff_strayPlus :
    Program.parse (strayPlus 999) = .error (.fault (strayFault 999)) ∧
      (strayFault 999).cause.code ∈ ["E101", "E103", "E104", "E105"] ∧
      ∃ margin line carets,
        Shows (strayFault 999).text.toList (strayFault 999).diagnostic.header.toList
          (strayPlus 999).toList (strayPlace 999).start margin line carets ∧
        margin.length = carets.idxOf '^' + 1 := by
  have hparse := parse_strayPlus 998
  have hcode : (strayFault 999).cause.code ∈ ["E101", "E103", "E104", "E105"] := by decide
  obtain ⟨span, margin, line, carets, hspan, hshows, -, hoff, -⟩ :=
    caret_under_iff (.inr hparse) hcode
  obtain rfl : strayPlace 999 = span := Option.some.inj hspan
  have hdigits : (Nat.toDigits 10 (strayPlace 999).start.line).length - 3 = 1 := by decide
  rw [hdigits] at hoff
  exact ⟨hparse, hcode, margin, line, carets, hshows, hoff⟩

end Reports

end DiceLang
