import DiceLang.Rolling

/-!
# Built-in commands

A built-in command works on integers.  It is found by its form, like a command that a user has
defined, and it takes precedence over one.  The standard registry holds the roll of dice, under a
capital and a small letter.
-/

namespace DiceLang

/-- A command that is built in. -/
structure Builtin where
  form : Form
  /-- How many arguments a call must give. -/
  arity : Nat
  doc : String
  /-- What the command does with the values of its arguments. -/
  action : List Int → Eval Int

namespace Builtin

/-- The action that rolls as many dice as its first operand says, each with as many sides as the
second says.  Its command takes two operands, so the last case never arises. -/
def rollAction : List Int → Eval Int
  | [count, sides] => roll count sides
  | _ => pure 0

/-- The infix command of a given name that rolls dice. -/
def dice (name : String) : Builtin where
  form := ⟨name, .infixed⟩
  arity := 2
  doc := "COUNT " ++ name ++ " SIDES: sum of COUNT rolls of a SIDES-sided die"
  action := rollAction

end Builtin

/-- The commands that are built in, in the order of their registration. -/
structure Registry where
  commands : List Builtin

namespace Registry

/-- The roll of dice under its two names. -/
def standard : Registry := ⟨[Builtin.dice "D", Builtin.dice "d"]⟩

/-- The built-in command of a form. -/
def get? (registry : Registry) (form : Form) : Option Builtin :=
  registry.commands.find? fun command => command.form == form

/-- Whether a form is built in. -/
def contains (registry : Registry) (form : Form) : Bool :=
  (registry.get? form).isSome

/-- Adds a command to a list of them: in place of the present one of its form, or else at the
end. -/
def put (command : Builtin) : List Builtin → List Builtin
  | [] => [command]
  | present :: rest =>
    if present.form = command.form then command :: rest else present :: put command rest

/-- Registers a command. -/
def register (registry : Registry) (command : Builtin) : Registry :=
  ⟨put command registry.commands⟩

end Registry

end DiceLang
