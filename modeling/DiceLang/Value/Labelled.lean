import DiceLang.Value

/-!
# Labelled data

A datum may be put under either type label by hand.  Its label decides how it prints: a number
under the boolean label prints as true unless it is zero, and a truth value under the integer label
keeps its own name.  Data are compared as numbers, truth counting as one, so only the labels keep
numbers and truth values apart.
-/

namespace DiceLang

/-- A bare number or truth value. -/
inductive Datum
  | number (n : Int)
  | truth (b : Bool)

namespace Datum

/-- A datum as a number. -/
def toInt : Datum → Int
  | number n => n
  | truth b => if b then 1 else 0

/-- A datum as a truth value. -/
def toBool (datum : Datum) : Bool := datum.toInt != 0

/-- The name of a datum, unless it is a number with too many digits. -/
def text? : Datum → Option String
  | number n => Text.decimal? n
  | truth b => some (if b then "True" else "False")

end Datum

/-- A datum under a type label. -/
structure Labelled where
  datum : Datum
  type : ValueType

namespace Labelled

/-- A datum made into a number and labelled as one. -/
def integer (datum : Datum) : Labelled := ⟨.number datum.toInt, .integer⟩

/-- A datum made into a truth value and labelled as one. -/
def boolean (datum : Datum) : Labelled := ⟨.truth datum.toBool, .boolean⟩

/-- The printed form, which the label decides. -/
def text? (labelled : Labelled) : Option String :=
  match labelled.type with
  | .boolean => some (Value.truth labelled.datum.toBool)
  | .integer => labelled.datum.text?

/-- The listed form, which shows both the datum and the label. -/
def listing? (labelled : Labelled) : Option String :=
  labelled.datum.text?.map fun text => "Value(" ++ text ++ ", " ++ labelled.type.label ++ ")"

/-- Whether two labelled data agree in their labels and, as numbers, in their data. -/
def agrees (a b : Labelled) : Bool :=
  a.datum.toInt == b.datum.toInt && a.type == b.type

end Labelled

end DiceLang
