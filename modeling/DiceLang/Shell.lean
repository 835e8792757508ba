import DiceLang.Dice.Twister
import DiceLang.Session
import DiceLang.Shell.Options
import DiceLang.Tree.Outline

/-!
# The shell

The shell runs lines in a session and writes what they come to: results to the output, reports of
faults and debugging notes to the error stream.  It either runs the texts of the command line or
reads lines until there are no more.

What has been written so far is part of the state, so it survives a failure that escapes.
-/

namespace DiceLang

/-- The seed that a text denotes. -/
def Seed.parse? (text : String) : Option Int := Text.integer? text

/-- The complaint about a text that is no seed. -/
def Seed.complaint (text : String) : String :=
  "Invalid seed: " ++ Text.quoted text ++ " (expected an integer)"

/-- A session with the streams it writes to. -/
structure Console (σ : Type) where
  /-- Whether lines are shown as outlines rather than run. -/
  showTrees : Bool
  /-- Whether debugging notes are written. -/
  verbose : Bool
  session : Session σ
  out : String
  err : String

/-- An action of the shell. -/
abbrev Shell (σ α : Type) : Type := EStateM Failure (Console σ) α

namespace Shell

variable {σ : Type}

/-- Writes to the output. -/
def write (text : String) : Shell σ Unit :=
  modify fun console => { console with out := console.out ++ text }

/-- Writes to the error stream. -/
def complain (text : String) : Shell σ Unit :=
  modify fun console => { console with err := console.err ++ text }

/-- One line of the debugging log. -/
def logLine (source message : String) : String :=
  "DEBUG " ++ source ++ ": " ++ message ++ "\n"

/-- Where the notes of the shell itself come from. -/
def shellLog : String := "dyce.__main__"

/-- Where the notes of sessions come from. -/
def sessionLog : String := "dyce.runtime.interpreter"

/-- Writes a debugging note, if they are wanted. -/
def log (source message : String) : Shell σ Unit := do
  if (← get).verbose then complain (logLine source message)

/-- Writes the notes of a session. -/
def logNotes : List Note → Shell σ Unit
  | [] => pure ()
  | note :: notes => do
    log sessionLog note.text
    logNotes notes

/-- Shows the outline of a line.  Tells whether the line could be read. -/
def showTree (text : String) : Shell σ Bool :=
  if Text.isEmptyLine text then return true
  else
    match Line.parse text with
    | .error (.fault mistake) => do
      complain (mistake.text ++ "\n")
      return false
    | .error failure => throw failure
    | .ok line =>
      match line.toTree.outline with
      | .error failure => throw failure
      | .ok outline => do
        write (outline ++ "\n")
        return true

/-- Writes the result of a line.  Tells whether it is a success. -/
def report : LineResult → Shell σ Bool
  | .failed mistake => do
    complain (mistake.text ++ "\n")
    return false
  | result =>
    match result.text? with
    | none => throw .digitLimit
    | some "" => return true
    | some text => do
      write (text ++ "\n")
      return true

variable [Dice σ]

/-- Runs a line in the session and writes its result.  Tells whether it is a success. -/
def playLine (text : String) : Shell σ Bool := do
  let run := (← get).session.runLine text
  modify fun console => { console with session := run.session }
  logNotes run.notes
  match run.outcome with
  | .ok result => report result
  | .error failure => throw failure

/-- Runs or shows a line.  Tells whether it is a success. -/
def handle (text : String) : Shell σ Bool := do
  if (← get).showTrees then showTree text else playLine text

/-- Handles texts in order, whatever becomes of each, and counts those that fail. -/
def handleAll : List String → Shell σ Nat
  | [] => return 0
  | text :: texts => do
    let success ← handle text
    let failures ← handleAll texts
    return if success then failures else failures + 1

/-- Runs the texts of a command line.  The status tells whether any of them failed. -/
def batch (texts : List String) : Shell σ Nat := do
  let failures ← handleAll texts
  if failures = 0 then return 0
  else
    log shellLog
      (Nat.repr failures ++ " of " ++ Nat.repr texts.length ++ " expression(s) failed")
    return 1

/-- Runs the texts of a command line, of which some may be withheld.  The first of those ends the
run. -/
def batchGiven (texts : List (Option String)) : Shell σ Nat :=
  if texts.all Option.isSome then batch (texts.filterMap id)
  else do
    let _ ← handleAll ((texts.takeWhile Option.isSome).filterMap id)
    throw .withheld

/-- Handles a line that was typed in.  Breaking off while it is run ends the line only. -/
def respond (text : String) : Shell σ Unit := fun console =>
  match (handle text).run console with
  | .ok _ console => .ok () console
  | .error (.mishap .interrupted) console => (complain "interrupted\n").run console
  | .error failure console => .error failure console

/-- Prompts for lines until there are no more.  Breaking off at the prompt, which is given as
`none`, leads to the next prompt. -/
def interact (prompt : String) : List (Option String) → Shell σ Nat
  | [] => do
    write prompt
    write "\n"
    return 0
  | none :: lines => do
    write prompt
    write "\n"
    interact prompt lines
  | some text :: lines => do
    write prompt
    respond text
    interact prompt lines

end Shell

/-- The list of built-in commands. -/
def Registry.listing (registry : Registry) : String :=
  "Built-in commands (" ++ Nat.repr registry.commands.length ++ "):\n" ++
    String.join (registry.commands.map fun command =>
      "  " ++ command.form.text ++ ": " ++ command.doc ++ "\n")

namespace Shell

/-- The surroundings of a call of the shell. -/
structure Surroundings where
  /-- The variable that gives a seed. -/
  seed : Option String
  /-- The variable that gives the prompt. -/
  prompt : Option String

/-- The prompt when none is given. -/
def defaultPrompt : String := ">> "

/-- What is to be done after the options have been looked at. -/
inductive Task
  /-- Nothing more: the status, what is to be written to the output and to the error stream. -/
  | finish (status : Nat) (out err : String)
  | batch (console : Console Twister) (texts : List (Option String))
  | interact (console : Console Twister) (prompt : String)

/-- The text of the seed: the option wins over the variable, and an empty text is none. -/
def seedText? (options : Options) (surroundings : Surroundings) : Option String :=
  match options.seed <|> surroundings.seed with
  | some "" => none
  | text => text

/-- Decides what is to be done with dice, once their seed is settled and noted. -/
def taskWith (options : Options) (surroundings : Surroundings) (dice : Twister) (err : String) :
    Task :=
  let session := Session.start options.fresh dice
  let console : Console Twister := ⟨options.ast, options.verbose, session, "", err⟩
  if options.builtins then .finish 0 Registry.standard.listing err
  else
    match options.expressions with
    | [] => .interact console (surroundings.prompt.getD defaultPrompt)
    | texts => .batch console texts

/-- Decides what is to be done.  Dice without a seed are given. -/
def task (options : Options) (surroundings : Surroundings) (unseeded : Twister) : Task :=
  match seedText? options surroundings with
  | none => taskWith options surroundings unseeded ""
  | some text =>
    match Seed.parse? text with
    | none => .finish 2 "" ("Error: " ++ Seed.complaint text ++ "\n")
    | some seed =>
      let note := logLine shellLog ("dice seeded with " ++ Text.decimal seed)
      taskWith options surroundings (.ofSeed seed) (if options.verbose then note else "")

/-- How a call of the shell ends. -/
structure Ending where
  /-- The status, or the failure that nothing catches. -/
  status : Except Failure Nat
  out : String
  err : String

/-- The end of an action of the shell. -/
def Ending.ofResult {σ : Type} : EStateM.Result Failure (Console σ) Nat → Ending
  | .ok status console => ⟨.ok status, console.out, console.err⟩
  | .error failure console => ⟨.error failure, console.out, console.err⟩

/-- The lines of an input: a newline ends each of them, and the last one may go without. -/
def inputLines (input : String) : List String :=
  let lines := (splitLines input.toList).map String.ofList
  if lines.getLast? = some "" then lines.dropLast else lines

/-- Does what is to be done with a given input. -/
def perform (task : Task) (input : String) : Ending :=
  match task with
  | .finish status out err => ⟨.ok status, out, err⟩
  | .batch console texts => .ofResult ((Shell.batchGiven texts).run console)
  | .interact console prompt =>
    .ofResult ((Shell.interact prompt ((inputLines input).map some)).run console)

end Shell

end DiceLang
