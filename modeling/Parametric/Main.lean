import Parametric.CommandLine

/-!
# The program

Reads the files that the arguments name and prints the answer.
-/

open Parametric

def readFile? (file : String) : IO (Option String) := do
  try return some (← IO.FS.readFile file)
  catch _ => return none

def main (args : List String) : IO UInt32 := do
  match Command.ofArgs? args with
  | none =>
    IO.eprintln "invalid arguments; see --help"
    return 2
  | some command =>
    let contents ← command.files.mapM fun file => return (file, ← readFile? file)
    let exit := command.outcome fun file => (contents.lookup file).join
    for text in exit.output do
      IO.println text
    if exit.code ≠ 0 then IO.eprintln "the settings or the script cannot be used"
    return exit.code
