/-!
# Decimal numbers

Integers are unbounded, but text is turned into a number and a number into text only up to a fixed
count of decimal digits.  Arithmetic knows no such limit.

Where a number is written by hand its digits may be of any script, single underscores may part them,
and white space around the number does not matter.
-/

namespace DiceLang.Text

/-- The largest number of digits that is converted between numbers and text. -/
def digitLimit : Nat := 4300

/-- The decimal form of an integer, without regard to its length. -/
def decimal : Int → String
  | .ofNat n => Nat.repr n
  | .negSucc n => "-" ++ Nat.repr (n + 1)

/-- Whether the digits of an integer are few enough for it to be written. -/
def isWritable (n : Int) : Bool :=
  n.natAbs < Nat.pow 10 digitLimit

/-- The decimal form of an integer, if its digits are few enough. -/
def decimal? (n : Int) : Option String :=
  if isWritable n then some (decimal n) else none

/-- The number that a run of ASCII digits denotes, if the run is short enough.  Leading zeros
count. -/
def readDigits? (digits : List Char) : Option Nat :=
  if digits.length ≤ digitLimit then some (Nat.ofDigitChars 10 digits 0) else none

/-- The code points of the digit zero, in increasing order.  In each script the ten digits take
consecutive code points from zero up (category Nd of version 14.0 of the Unicode standard). -/
def zeros : List Nat :=
  [0x0030, 0x0660, 0x06F0, 0x07C0, 0x0966, 0x09E6, 0x0A66, 0x0AE6, 0x0B66, 0x0BE6, 0x0C66, 0x0CE6,
   0x0D66, 0x0DE6, 0x0E50, 0x0ED0, 0x0F20, 0x1040, 0x1090, 0x17E0, 0x1810, 0x1946, 0x19D0, 0x1A80,
   0x1A90, 0x1B50, 0x1BB0, 0x1C40, 0x1C50, 0xA620, 0xA8D0, 0xA900, 0xA9D0, 0xA9F0, 0xAA50, 0xABF0,
   0xFF10, 0x104A0, 0x10D30, 0x11066, 0x110F0, 0x11136, 0x111D0, 0x112F0, 0x11450, 0x114D0, 0x11650,
   0x116C0, 0x11730, 0x118E0, 0x11950, 0x11C50, 0x11D50, 0x11DA0, 0x16A60, 0x16AC0, 0x16B50,
   0x1D7CE, 0x1D7D8, 0x1D7E2, 0x1D7EC, 0x1D7F6, 0x1E140, 0x1E2F0, 0x1E950, 0x1FBF0]

/-- The value of a decimal digit of any script. -/
def digitValue? (c : Char) : Option Nat :=
  (zeros.find? fun base => base ≤ c.toNat && c.toNat < base + 10).map fun base => c.toNat - base

/-- The digits of a numeral whose digits, of any script, may be parted by single underscores. -/
def numeralDigits? : List Char → Option (List Nat)
  | [] => none
  | c :: text =>
    match digitValue? c, text with
    | none, _ => none
    | some digit, [] => some [digit]
    | some digit, '_' :: text => (numeralDigits? text).map (digit :: ·)
    | some digit, text => (numeralDigits? text).map (digit :: ·)

/-- The number with the given decimal digits, the most significant first. -/
def ofDigits (digits : List Nat) : Nat :=
  digits.foldl (fun n digit => 10 * n + digit) 0

/-- The natural number that a numeral denotes, if it is one and short enough. -/
def readNumeral? (text : List Char) : Option Nat :=
  match numeralDigits? text with
  | some digits => if digits.length ≤ digitLimit then some (ofDigits digits) else none
  | none => none

/-- The integer that an optional sign and a numeral denote. -/
def readInteger? : List Char → Option Int
  | '+' :: text => (readNumeral? text).map Int.ofNat
  | '-' :: text => (readNumeral? text).map fun n => -Int.ofNat n
  | text => (readNumeral? text).map Int.ofNat

/-- The code points of white space, as closed ranges in increasing order: the Unicode property
White_Space, and the four information separators U+001C to U+001F. -/
def spaceRanges : List (Nat × Nat) :=
  [(0x0009, 0x000D), (0x001C, 0x0020), (0x0085, 0x0085), (0x00A0, 0x00A0), (0x1680, 0x1680),
   (0x2000, 0x200A), (0x2028, 0x2029), (0x202F, 0x202F), (0x205F, 0x205F), (0x3000, 0x3000)]

/-- Whether a character is white space. -/
def isSpace (c : Char) : Bool :=
  spaceRanges.any fun range => range.1 ≤ c.toNat && c.toNat ≤ range.2

/-- Whether a text holds nothing but white space. -/
def isEmptyLine (text : String) : Bool :=
  text.toList.all isSpace

/-- A text without the white space at its two ends. -/
def strip (text : List Char) : List Char :=
  ((text.dropWhile isSpace).reverse.dropWhile isSpace).reverse

/-- The integer that a text denotes, with white space around it or without. -/
def integer? (text : String) : Option Int :=
  readInteger? (strip text.toList)

end DiceLang.Text
