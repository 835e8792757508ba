/-!
# Positions in a text

A `Location` is a place between two characters of a text: its line and column, both counted from
one, and its offset, counted from zero.  All three count characters, not bytes.  A `Span` is the
stretch of text between two locations.

Walking over a text is a fold of `Location.step`, so the location after a text that is written in
two parts is the location after the second part, started from the location after the first.
-/

namespace DiceLang

/-- A place in a text, just before some character or at its end. -/
structure Location where
  /-- Lines are counted from one. -/
  line : Nat
  /-- Columns are counted from one. -/
  column : Nat
  /-- The number of characters before this place. -/
  offset : Nat
deriving DecidableEq

namespace Location

/-- The start of every text. -/
def origin : Location := ⟨1, 1, 0⟩

/-- The place just after a character: a newline opens the next line, and any other character
takes one column. -/
def step (here : Location) (c : Char) : Location :=
  if c = '\n' then ⟨here.line + 1, 1, here.offset + 1⟩
  else ⟨here.line, here.column + 1, here.offset + 1⟩

/-- The place reached by walking over a text. -/
def after (here : Location) (text : List Char) : Location :=
  text.foldl step here

@[simp] theorem after_nil (here : Location) : here.after [] = here := rfl

@[simp] theorem after_cons (here : Location) (c : Char) (text : List Char) :
    here.after (c :: text) = (here.step c).after text := rfl

/-- Walking over two texts in a row is walking over their concatenation. -/
theorem after_append (here : Location) (a b : List Char) :
    here.after (a ++ b) = (here.after a).after b := by
  simp [after]

theorem offset_step (here : Location) (c : Char) : (here.step c).offset = here.offset + 1 := by
  unfold step
  split <;> rfl

/-- Walking over a text takes as many offsets as it has characters. -/
theorem offset_after (here : Location) (text : List Char) :
    (here.after text).offset = here.offset + text.length := by
  induction text generalizing here with
  | nil => rfl
  | cons c text ih =>
      rw [after_cons, ih, offset_step, List.length_cons]
      omega

/-- The usual written form, `line:column`. -/
def text (here : Location) : String :=
  Nat.repr here.line ++ ":" ++ Nat.repr here.column

end Location

/-- A stretch of text, from `start` up to but not including `stop`. -/
structure Span where
  start : Location
  stop : Location
deriving DecidableEq

namespace Span

/-- The written form of a span: its two ends joined by a hyphen. -/
def text (span : Span) : String :=
  span.start.text ++ "-" ++ span.stop.text

/-- The span from the start of one span to the end of another. -/
def through (first last : Span) : Span := ⟨first.start, last.stop⟩

end Span

/-- The lines of a text: the pieces between its newlines, of which there is one more than there
are newlines. -/
def splitLines : List Char → List (List Char)
  | [] => [[]]
  | c :: text =>
    if c = '\n' then [] :: splitLines text
    else
      match splitLines text with
      | [] => [[c]]
      | line :: lines => (c :: line) :: lines

/-- A line of a text, counted from one. -/
def lineOf? (text : String) (number : Nat) : Option String :=
  match number with
  | 0 => none
  | n + 1 => (splitLines text.toList)[n]?.map String.ofList

end DiceLang
