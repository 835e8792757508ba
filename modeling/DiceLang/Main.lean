import DiceLang.Shell

/-!
# The command

Reads the command line, the surroundings and the standard input, and leaves the rest to the shell.
Lines are answered as they come.  Dice that the user gives no seed for are seeded by the system.
-/

namespace DiceLang.Terminal

/-- Writes what a console holds to the standard streams and empties it. -/
def flush (console : Console Twister) : IO (Console Twister) := do
  IO.print console.out
  (← IO.getStdout).flush
  IO.eprint console.err
  return { console with out := "", err := "" }

/-- How a failure that nothing catches is reported. -/
def lastWords : Failure → String
  | .fault mistake => mistake.text
  | .digitLimit => "integer has too many digits"
  | .notExpression nodeName => "Unknown expression type: " ++ nodeName
  | .tooDeep => "recursion limit exceeded"
  | .mishap .exhausted => "no preset roll left"
  | .mishap .interrupted => "interrupted"
  | .withheld => "no text to run"

/-- Reports a failure that nothing catches. -/
def giveUp (failure : Failure) : IO UInt32 := do
  IO.eprintln (lastWords failure)
  return 1

/-- Answers lines until the input ends. -/
partial def answerLines (prompt : String) (console : Console Twister) : IO UInt32 := do
  IO.print prompt
  (← IO.getStdout).flush
  let line ← (← IO.getStdin).getLine
  if line.isEmpty then
    IO.println ""
    return 0
  else
    let text := if line.back = '\n' then (line.dropEnd 1).toString else line
    match (Shell.respond text).run console with
    | .ok _ console => answerLines prompt (← flush console)
    | .error failure console => do
      let _ ← flush console
      giveUp failure

/-- Does what is to be done and turns the ending into a status. -/
def perform : Shell.Task → IO UInt32
  | .interact console prompt => do answerLines prompt (← flush console)
  | task => do
    let ending := Shell.perform task ""
    IO.print ending.out
    IO.eprint ending.err
    match ending.status with
    | .ok status => return status.toUInt32
    | .error failure => giveUp failure

/-- A seed that the system chooses. -/
def systemSeed : IO Nat := do
  let bytes ← IO.getRandomBytes 16
  return bytes.foldl (fun seed byte => 256 * seed + byte.toNat) 0

/-- The options there are, in one line. -/
def usage : String :=
  "usage: [-h] [-e EXPR] [--seed N] [--fresh] [--ast] [--builtins] [-v]"

end DiceLang.Terminal

open DiceLang in
/-- Runs the shell on a command line. -/
def main (arguments : List String) : IO UInt32 := do
  match Request.ofArguments arguments with
  | .refused =>
    IO.eprintln Terminal.usage
    return 2
  | .help =>
    IO.println Terminal.usage
    return 0
  | .granted options =>
    let surroundings : Shell.Surroundings :=
      ⟨← IO.getEnv "DYCE_SEED", ← IO.getEnv "DYCE_PROMPT"⟩
    Terminal.perform (Shell.task options surroundings (.ofSeed (← Terminal.systemSeed)))
