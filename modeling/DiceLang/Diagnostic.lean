import DiceLang.Source

/-!
# Diagnostics

A diagnostic is a message for the author of a text: a code, a sentence, and where they are known
the span at fault, the line it starts on and hints.  It prints as a header, then the quoted line
with a row of carets below it, then the hints.

The number of the quoted line is written to the right of a field of three places; the row of carets
has a margin of the same width.
-/

namespace DiceLang

/-- A message for the author of a text. -/
structure Diagnostic where
  code : String
  message : String
  span : Option Span
  /-- The line of the text on which the span starts. -/
  sourceLine : Option String
  hints : List String

namespace Diagnostic

/-- The word that opens every header; there is no milder degree than an error. -/
def severity : String := "error"

/-- So many copies of a character. -/
def times (n : Nat) (c : Char) : String := String.ofList (List.replicate n c)

/-- The first line: the place, if known, the code and the message. -/
def header (diagnostic : Diagnostic) : String :=
  let statement := severity ++ "[" ++ diagnostic.code ++ "]: " ++ diagnostic.message
  match diagnostic.span with
  | some span => span.start.text ++ ": " ++ statement
  | none => statement

/-- A line number, written to the right of a field of three places. -/
def lineNumber (n : Nat) : String :=
  String.ofList (List.leftpad 3 ' ' (Nat.toDigits 10 n))

/-- How many carets stand under a span that starts on a given line: they reach to the end of the
span or, if that is on a later line, to the end of this one, and there is at least one. -/
def caretCount (span : Span) (line : String) : Nat :=
  let stop := if span.start.line = span.stop.line then span.stop.column else line.length + 1
  max 1 (stop - span.start.column)

/-- The line at fault and the carets below it. -/
def excerpt (span : Span) (line : String) : List String :=
  ["  |",
   lineNumber span.start.line ++ " | " ++ line,
   "    | " ++ times (span.start.column - 1) ' ' ++ times (caretCount span line) '^']

/-- The lines of a diagnostic, with or without the excerpt. -/
def lines (diagnostic : Diagnostic) (withSource : Bool) : List String :=
  let quoted :=
    match withSource, diagnostic.span, diagnostic.sourceLine with
    | true, some span, some line => excerpt span line
    | _, _, _ => []
  diagnostic.header :: (quoted ++ diagnostic.hints.map ("    = hint: " ++ ·))

/-- The printed form of a diagnostic. -/
def format (diagnostic : Diagnostic) (withSource : Bool) : String :=
  "\n".intercalate (diagnostic.lines withSource)

/-- The printed form of a diagnostic with the excerpt, if it has one. -/
def text (diagnostic : Diagnostic) : String := diagnostic.format true

end Diagnostic

end DiceLang
