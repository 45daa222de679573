import NominalTypes.CommandLine.Run
import NominalTypes.CommandLine.Usage

/-!
# The command line program

Exit status 0 is a positive answer and 1 a negative one; 2 says that there is no answer.
-/

namespace NominalTypes

/-- The content of a file that can be read. -/
def contentOf? (file : String) : IO (Option String) := do
  try
    return some (← IO.FS.readFile file)
  catch _ =>
    return none

/-- Answers a command on standard output, or says on standard error why there is no answer. -/
def Invocation.perform (i : Invocation) : IO UInt32 := do
  let contents ← i.universes.mapM fun file => do return (file, ← contentOf? file)
  match i.run fun file => (contents.lookup file).join with
  | .ok answer =>
    IO.println (answer.render i.format)
    return if answer.isPositive then 0 else 1
  | .error error =>
    IO.eprintln ("error: " ++ error.message)
    return 2

end NominalTypes

/-- Runs a command line. -/
def main (args : List String) : IO UInt32 := do
  match NominalTypes.Invocation.parse args with
  | .ok invocation => invocation.perform
  | .error issue =>
    if issue.isFailure then
      IO.eprintln issue.message
      return 2
    else
      IO.println issue.message
      return 0
