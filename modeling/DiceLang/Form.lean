/-!
# Forms of commands

A command is known by its name together with its calling shape, so that one name may stand for
four unrelated commands.
-/

namespace DiceLang

/-- Where the operands of a command stand around its name. -/
inductive Shape
  /-- The bare name. -/
  | nullary
  /-- The name, then one operand. -/
  | prefixed
  /-- The name between two operands. -/
  | infixed
  /-- One operand, then the name. -/
  | postfixed
deriving DecidableEq

namespace Shape

/-- The word for a shape in messages. -/
def text : Shape → String
  | nullary => "nullary"
  | prefixed => "prefix"
  | infixed => "infix"
  | postfixed => "postfix"

/-- The word for a shape in outlines. -/
def label : Shape → String
  | nullary => "NULLARY"
  | prefixed => "PREFIX"
  | infixed => "INFIX"
  | postfixed => "POSTFIX"

/-- The shape of a call with a list of arguments in parentheses: with none it is nullary, with two
it is infix, and no other number of arguments has a shape. -/
def ofArgumentCount? : Nat → Option Shape
  | 0 => some nullary
  | 2 => some infixed
  | _ => none

end Shape

/-- What a command is looked up by. -/
structure Form where
  name : String
  shape : Shape
deriving DecidableEq

namespace Form

/-- The shape and the name of a form, in words. -/
def text (form : Form) : String :=
  form.shape.text ++ " " ++ form.name

end Form

end DiceLang
