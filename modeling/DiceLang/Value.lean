import DiceLang.Text.Decimal

/-!
# Values

Evaluation yields an integer or a boolean.  The two never equal one another.
-/

namespace DiceLang

/-- The types of values. -/
inductive ValueType
  | integer
  | boolean
deriving DecidableEq

namespace ValueType

/-- The name of a type in messages. -/
def text : ValueType → String
  | integer => "integer"
  | boolean => "boolean"

/-- The name of a type in listings. -/
def label : ValueType → String
  | integer => "INTEGER"
  | boolean => "BOOLEAN"

end ValueType

/-- What an expression evaluates to. -/
inductive Value
  | integer (n : Int)
  | boolean (b : Bool)
deriving DecidableEq

namespace Value

/-- The type of a value. -/
def type : Value → ValueType
  | integer _ => .integer
  | boolean _ => .boolean

/-- The printed form of a boolean. -/
def truth (b : Bool) : String := if b then "true" else "false"

/-- The printed form of a value, unless it is an integer with too many digits. -/
def text? : Value → Option String
  | integer n => Text.decimal? n
  | boolean b => some (truth b)

end Value

end DiceLang
