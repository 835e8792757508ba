import DiceLang.Text.Printable

/-!
# Quoted text

A text is shown on one line between quotation marks: single ones, unless the text holds an
apostrophe and no double quote.  The chosen mark and the backslash are written with a backslash
before them, line breaks and tabs by their letters, and every other unprintable character by its
code point in two, four or eight hexadecimal digits.
-/

namespace DiceLang.Text

/-- The single quotation mark. -/
def apostrophe : Char := Char.ofNat 0x27

/-- The double quotation mark. -/
def doubleQuote : Char := Char.ofNat 0x22

/-- The escape character. -/
def backslash : Char := Char.ofNat 0x5C

/-- The mark that a text is quoted with. -/
def quoteMark (text : List Char) : Char :=
  if text.contains apostrophe && !text.contains doubleQuote then doubleQuote else apostrophe

/-- A number in lower-case hexadecimal, filled up with zeros to a given width. -/
def hexadecimal (width n : Nat) : List Char :=
  List.leftpad width '0' (Nat.toDigits 16 n)

/-- How one character is written inside a given pair of marks. -/
def escaped (mark c : Char) : List Char :=
  if c = mark || c = backslash then [backslash, c]
  else if c = '\n' then [backslash, 'n']
  else if c = '\r' then [backslash, 'r']
  else if c = '\t' then [backslash, 't']
  else if isPrintable c then [c]
  else if c.toNat < 0x100 then backslash :: 'x' :: hexadecimal 2 c.toNat
  else if c.toNat < 0x10000 then backslash :: 'u' :: hexadecimal 4 c.toNat
  else backslash :: 'U' :: hexadecimal 8 c.toNat

/-- The quoted form of a text, as characters. -/
def quotedChars (text : List Char) : List Char :=
  let mark := quoteMark text
  mark :: (text.flatMap (escaped mark) ++ [mark])

/-- The quoted form of a text. -/
def quoted (text : String) : String :=
  String.ofList (quotedChars text.toList)

end DiceLang.Text
