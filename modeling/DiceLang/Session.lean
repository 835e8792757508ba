import DiceLang.Evaluation
import DiceLang.Program.Reading

/-!
# Sessions

A session runs lines one after the other.  Definitions made by one line are there for the lines
after it, unless the session is a fresh one, in which every line starts with nothing defined.  All
lines share one set of dice.

A fault ends its line and is part of the result; the session goes on.  Any other failure escapes.
Either way the session is left in a definite state: what the dice have been asked for is spent, and
only a whole block of definitions changes what is defined.
-/

namespace DiceLang

/-- What one line comes to. -/
inductive LineResult
  /-- There was nothing on the line. -/
  | blank
  | value (v : Value)
  | defined (forms : List Form)
  | failed (mistake : Fault)

namespace LineResult

/-- The report of a failed line. -/
def errorText? : LineResult → Option String
  | failed mistake => some mistake.text
  | _ => none

/-- What is printed for a line, unless it is an integer with too many digits. -/
def text? : LineResult → Option String
  | blank => some ""
  | value v => v.text?
  | defined [] => some ""
  | defined forms => some ("defined " ++ ", ".intercalate (forms.map Form.text))
  | failed mistake => some mistake.text

end LineResult

/-- What happens while a line is run, for those who want to follow it. -/
inductive Note
  | defined (forms : List Form)
  | evaluating (text : String)
  | failed (mistake : Fault)

/-- A note in words. -/
def Note.text : Note → String
  | defined forms => "defined " ++ ", ".intercalate (forms.map Form.text)
  | evaluating text => "evaluating " ++ Text.quoted text
  | failed mistake =>
    "line failed with " ++ mistake.cause.code ++ ": " ++ mistake.cause.message

/-- The state that lines share. -/
structure Session (σ : Type) where
  /-- Whether every line starts with nothing defined. -/
  fresh : Bool
  env : Environment
  dice : σ

/-- What running a line leads to: its result or the failure that escapes, the session after it and
what happened on the way. -/
structure Run (σ : Type) where
  outcome : Except Failure LineResult
  session : Session σ
  notes : List Note

namespace Session

variable {σ : Type}

/-- A session in which nothing is defined yet. -/
def start (fresh : Bool) (dice : σ) : Session σ := ⟨fresh, .empty, dice⟩

/-- Forgets all definitions. -/
def reset (session : Session σ) : Session σ := { session with env := .empty }

/-- The end of a line that failed after the given notes.  A fault is a result; other failures
escape. -/
def fail (session : Session σ) (notes : List Note) : Failure → Run σ
  | .fault mistake => ⟨.ok (.failed mistake), session, notes ++ [.failed mistake]⟩
  | failure => ⟨.error failure, session, notes⟩

/-- Binds the definitions of a block. -/
def load (session : Session σ) (block : Program) : Run σ :=
  ⟨.ok (.defined block.forms), { session with env := session.env.load block },
    [.defined block.forms]⟩

variable [Dice σ]

/-- Evaluates the expression that a text was read as. -/
def play (session : Session σ) (text : String) (tree : Tree) : Run σ :=
  match (evaluate .standard session.env tree).play session.dice with
  | (.ok value, dice) => ⟨.ok (.value value), { session with dice }, [.evaluating text]⟩
  | (.error failure, dice) => fail { session with dice } [.evaluating text] failure

/-- Runs what a text was read as, or fails as the reading did. -/
def runParsed (session : Session σ) (text : String) : Except Failure Line → Run σ
  | .error failure => session.fail [] failure
  | .ok (.program block) => session.load block
  | .ok (.expression tree) => session.play text tree

/-- Runs a line. -/
def runLine (session : Session σ) (text : String) : Run σ :=
  if Text.isEmptyLine text then ⟨.ok .blank, session, []⟩
  else
    let session := if session.fresh then session.reset else session
    session.runParsed text (Line.parse text)

end Session

end DiceLang
