import DiceLang.Fault
import DiceLang.Text.Decimal
import DiceLang.Text.Quoted
import DiceLang.Tree

/-!
# Outlines of trees

A tree is shown as an outline, one row to a line.  A node takes a row with its name and, one level
further in, a row for each of its fields; a field that holds nodes opens a block for them one level
further in still.  Names are quoted, so no row ever breaks.

A tree that is too deep has no outline, and an integer with too many digits to be written spoils
the whole outline.
-/

namespace DiceLang

/-- One row of an outline. -/
structure Row where
  /-- How many levels the row is indented by. -/
  depth : Nat
  text : String
deriving DecidableEq

namespace Row

/-- The row as it is printed, two spaces to a level. -/
def print (row : Row) : String :=
  String.ofList (List.replicate (2 * row.depth) ' ') ++ row.text

end Row

/-- A list of names, between parentheses; a single name is followed by a comma. -/
def nameList : List String → String
  | [] => "()"
  | [name] => "(" ++ Text.quoted name ++ ",)"
  | names => "(" ++ ", ".intercalate (names.map Text.quoted) ++ ")"

namespace Tree

/-- The row of a field that fits on it. -/
def fieldRow (depth : Nat) (field value : String) : Row :=
  ⟨depth + 1, field ++ ": " ++ value⟩

/-- The rows of a field that holds one node. -/
def nodeField (depth : Nat) (field : String) (rows : List Row) : List Row :=
  ⟨depth + 1, field ++ ":"⟩ :: rows

/-- The rows of a field that holds a list of nodes. -/
def nodesField (depth : Nat) (field : String) : List Row → List Row
  | [] => [fieldRow depth field "()"]
  | rows => ⟨depth + 1, field ++ ": ["⟩ :: (rows ++ [⟨depth + 1, "]"⟩])

mutual

/-- The rows of a tree whose first row is indented by `depth` levels. -/
def rows (depth : Nat) : Tree → List Row
  | hole _ => [⟨depth, "Expression"⟩]
  | integer value _ => [⟨depth, "Integer"⟩, fieldRow depth "value" (Text.decimal value)]
  | arithmetic op lhs rhs _ =>
    ⟨depth, "BinaryExpr"⟩ :: fieldRow depth "op" op.label ::
      (nodeField depth "lhs" (rows (depth + 2) lhs) ++
        nodeField depth "rhs" (rows (depth + 2) rhs))
  | comparison op lhs rhs _ =>
    ⟨depth, "ComparisonExpr"⟩ :: fieldRow depth "op" op.label ::
      (nodeField depth "lhs" (rows (depth + 2) lhs) ++
        nodeField depth "rhs" (rows (depth + 2) rhs))
  | nullary name _ => [⟨depth, "NullaryCommand"⟩, fieldRow depth "name" (Text.quoted name)]
  | prefixed name rhs _ =>
    ⟨depth, "PrefixCommand"⟩ :: fieldRow depth "name" (Text.quoted name) ::
      nodeField depth "rhs" (rows (depth + 2) rhs)
  | infixed name lhs rhs _ =>
    ⟨depth, "InfixCommand"⟩ :: fieldRow depth "name" (Text.quoted name) ::
      (nodeField depth "lhs" (rows (depth + 2) lhs) ++
        nodeField depth "rhs" (rows (depth + 2) rhs))
  | postfixed name lhs _ =>
    ⟨depth, "PostfixCommand"⟩ :: fieldRow depth "name" (Text.quoted name) ::
      nodeField depth "lhs" (rows (depth + 2) lhs)
  | call name args _ =>
    ⟨depth, "FunctionCall"⟩ :: fieldRow depth "name" (Text.quoted name) ::
      nodesField depth "args" (allRows (depth + 2) args)
  | definition form parameters body _ =>
    ⟨depth, "CommandDefinition"⟩ :: fieldRow depth "name" (Text.quoted form.name) ::
      fieldRow depth "kind" form.shape.label ::
      fieldRow depth "parameters" (nameList parameters) ::
      nodeField depth "body" (rows (depth + 2) body)
  | program definitions _ =>
    ⟨depth, "Program"⟩ :: nodesField depth "definitions" (allRows (depth + 2) definitions)

/-- The rows of several trees, one after the other. -/
def allRows (depth : Nat) : List Tree → List Row
  | [] => []
  | tree :: trees => rows depth tree ++ allRows depth trees

end

mutual

/-- Whether every integer of a tree is short enough to be written. -/
def isWritable : Tree → Bool
  | hole _ => true
  | integer value _ => Text.isWritable value
  | arithmetic _ lhs rhs _ => lhs.isWritable && rhs.isWritable
  | comparison _ lhs rhs _ => lhs.isWritable && rhs.isWritable
  | nullary .. => true
  | prefixed _ rhs _ => rhs.isWritable
  | infixed _ lhs rhs _ => lhs.isWritable && rhs.isWritable
  | postfixed _ lhs _ => lhs.isWritable
  | call _ args _ => allWritable args
  | definition _ _ body _ => body.isWritable
  | program definitions _ => allWritable definitions

/-- Whether every integer of several trees is short enough to be written. -/
def allWritable : List Tree → Bool
  | [] => true
  | tree :: trees => tree.isWritable && allWritable trees

end

/-- The text of an outline. -/
def outlineText (tree : Tree) : String :=
  "\n".intercalate ((tree.rows 0).map Row.print)

/-- The outline of a tree of at most `limit` levels, if its integers can be written. -/
def outlineWithin (limit : Nat) (tree : Tree) : Except Failure String :=
  if limit < tree.depth then .error .tooDeep
  else if tree.isWritable then .ok tree.outlineText
  else .error .digitLimit

/-- How many levels an outline may have.  The number stands for the limit of the stack that an interpreter
sets, which is 1000 frames.  A level takes one of them, and some are in use before the first. -/
def outlineLimit : Nat := 900

/-- The outline of a tree. -/
def outline (tree : Tree) : Except Failure String :=
  tree.outlineWithin outlineLimit

end Tree

end DiceLang
