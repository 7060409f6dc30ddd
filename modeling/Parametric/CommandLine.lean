import Parametric.Script
import Parametric.Text.Lines

/-!
# The command line

The arguments name a file of settings and a file with a script, both of which may be left out.
`Command.ofArgs?` reads them, and `Command.outcome` is what the program answers, given what is in
the files.
-/

namespace Parametric

/-- What the arguments ask for. -/
inductive Command
  | help
  /-- Run a script, or the one to show; with settings from a file, or the defaults. -/
  | run (settings script : Option String)
deriving DecidableEq, Repr

/-- How the program ends. -/
structure Exit where
  code : UInt32
  /-- What is printed, each text with a line feed after it. -/
  output : List String := []
deriving DecidableEq, Repr

/-- The lines of what is printed. A text may be more than one line. -/
def Exit.lines (e : Exit) : List String := e.output.flatMap Text.lines

namespace Command

/-! ## Arguments -/

/-- Put the name of a file where none was given yet. -/
def fill? (held : Option String) (file : String) : Option (Option String) :=
  if file = "" || held.isSome then none else some (some file)

/-- The option that names the file of settings. -/
def settingsOption : String := "--config"

/-- Whether an argument is an option by its form. A single dash is none. -/
def isOption (arg : String) : Bool := arg.startsWith "-" && arg ≠ "-"

/-- The value that an argument gives to the option of the settings. -/
def attached? (arg : String) : Option String :=
  let opening := (settingsOption ++ "=").toList
  if opening.isPrefixOf arg.toList then some (String.ofList (arg.toList.drop opening.length))
  else none

def asksHelp (arg : String) : Bool := arg = "--help" || arg.startsWith "-h"

/-- Read arguments from left to right, beside the files named so far. After two dashes every
argument is a script. -/
def read? (settings script : Option String) : List String → Option Command
  | [] => some (run settings script)
  | [arg] =>
    if arg = "--" then some (run settings script)
    else if asksHelp arg then some help
    else match attached? arg with
      | some file => (fill? settings file).map (run · script)
      | none => if isOption arg then none else (fill? script arg).map (run settings ·)
  | arg :: next :: rest =>
    if arg = "--" then ((next :: rest).foldlM fill? script).map (run settings ·)
    else if asksHelp arg then some help
    else if arg = settingsOption then
      if isOption next then none
      else (fill? settings next).bind (read? · script rest)
    else match attached? arg with
      | some file => (fill? settings file).bind (read? · script (next :: rest))
      | none =>
        if isOption arg then none
        else (fill? script arg).bind (read? settings · (next :: rest))

/-- The command of a list of arguments, if they make one. -/
def ofArgs? (args : List String) : Option Command := read? none none args

def files : Command → List String
  | help => []
  | run settings script => settings.toList ++ script.toList

/-! ## Answers -/

def usage : List String :=
  ["Run a parametric scene script and print its formula values", "",
    "Usage: formwork [OPTIONS] [SCENE]", "", "Arguments:",
    "  [SCENE]  Scene script (JSON). The built-in demo runs when omitted", "", "Options:",
    "      --config <CONFIG>  Engine configuration (JSON)", "  -h, --help             Print help"]

/-- The report on a script that runs with settings; none when something is wrong with the files or
the script. -/
def report? (contents : String → Option String) (settings script : Option String) :
    Option (List String) := do
  let settings ← match settings with
    | some file => (Settings.ofFile (contents file)).toOption
    | none => some {}
  let script ← match script with
    | some file => (Script.ofFile (contents file)).toOption
    | none => some Script.demo
  let w ← (script.run settings).toOption
  return w.report

/-- What a command answers; `contents` has the text of every file that can be read. -/
def outcome (contents : String → Option String) : Command → Exit
  | help => ⟨0, usage⟩
  | run settings script =>
    match report? contents settings script with
    | some report => ⟨0, report⟩
    | none => ⟨1, []⟩

end Command

/-- What the program answers to its arguments: those that make no command are refused. -/
def Exit.ofArgs (contents : String → Option String) (args : List String) : Exit :=
  match Command.ofArgs? args with
  | some c => c.outcome contents
  | none => ⟨2, []⟩

end Parametric
