/-
Module: ShellGloss.Arguments
Purpose: The command line's own arguments.
Imports: ShellGloss.Path, ShellGloss.Terminal, ShellGloss.Text.Blank
Main exports:
  Arguments, ArgumentError, Invocation, readArguments, usage
-/
import ShellGloss.Path
import ShellGloss.Terminal
import ShellGloss.Text.Blank

namespace ShellGloss

/-- What a run is asked to do.  Without a query it is a session of prompts. -/
structure Arguments where
  query : Option Text := none
  catalogFile : Option Location := none
  logFile : Option Location := none
  color : Bool := true
deriving Repr, Inhabited, DecidableEq

/-- Why arguments are refused. -/
inductive ArgumentError where
  | unknown (argument : Text)
  | missingValue (flag : Text)
  | badPath (flag : Text) (error : PathError)
  | blankQuery
deriving Repr, Inhabited, DecidableEq

namespace ArgumentError

/-- The wording of a refusal. -/
def message : ArgumentError → Text
  | .unknown argument => "Unknown argument: " ++ argument
  | .missingValue flag => flag ++ " requires a value."
  | .badPath flag error => flag ++ " path is invalid: " ++ error.message
  | .blankQuery => "--query requires a non-empty command."

/-- A refusal as it is shown, with a hint. -/
def output (error : ArgumentError) : Output :=
  .error error.message ++ { err := "Run 'cmdexplain --help' for usage.\n" }

end ArgumentError

/-- What the arguments call for. -/
inductive Invocation where
  | help
  | run (arguments : Arguments)
deriving Repr, Inhabited, DecidableEq

/-- The text of `--help`. -/
def usage : Text :=
  "Usage: cmdexplain [--query <command>] [--knowledge <path>] [--log <path>] [--no-color]\n" ++
  "\n" ++
  "Options:\n" ++
  "  --query <command>   Explain one command and exit.\n" ++
  "                      Without it, commands are read interactively.\n" ++
  "  --knowledge <path>  JSON file with program, subcommand and option summaries.\n" ++
  "                      Defaults to the file shipped with cmdexplain.\n" ++
  "  --log <path>        Write structured log events to this file.\n" ++
  "  --no-color          Disable terminal colors (also: NO_COLOR=1).\n" ++
  "  --help, -h          Show this help message and exit.\n" ++
  "\n" ++
  "Paths accept absolute paths, ~ (home), or @ (app root).\n" ++
  "\n" ++
  "Examples:\n" ++
  "  cmdexplain --query \"ls -la | grep txt\"\n" ++
  "  cmdexplain --knowledge ~/cmdexplain/commands.json --log ~/cmdexplain/run.log\n"

namespace Arguments

/-- The place that a flag's value names. -/
def place (around : Surroundings) (flag raw : Text) : Except ArgumentError Location :=
  match mapPath around raw with
  | .ok location => .ok location
  | .error error => .error (.badPath flag error)

/-- Read arguments from left to right.  A flag that takes a value takes the next
argument, whatever it looks like; of repeated flags the last counts. -/
def collect (around : Surroundings) (sofar : Arguments) :
    List Text → Except ArgumentError Arguments
  | [] => .ok sofar
  | [flag] =>
      if flag = "--no-color" then .ok { sofar with color := false }
      else if flag = "--query" ∨ flag = "--knowledge" ∨ flag = "--log" then
        .error (.missingValue flag)
      else .error (.unknown flag)
  | flag :: next :: rest =>
      if flag = "--no-color" then collect around { sofar with color := false } (next :: rest)
      else if flag = "--query" then collect around { sofar with query := some next } rest
      else if flag = "--knowledge" then
        match place around flag next with
        | .error error => .error error
        | .ok location => collect around { sofar with catalogFile := some location } rest
      else if flag = "--log" then
        match place around flag next with
        | .error error => .error error
        | .ok location => collect around { sofar with logFile := some location } rest
      else .error (.unknown flag)

/-- Colors are on unless the variable against them holds something. -/
def defaultColor (around : Surroundings) : Bool :=
  match around.noColor with
  | none => true
  | some value => value.isEmpty

/-- A blank query is refused, but only after all else is in order. -/
def settle (arguments : Arguments) : Except ArgumentError Arguments :=
  match arguments.query with
  | some query => if Text.isBlankText query then .error .blankQuery else .ok arguments
  | none => .ok arguments

end Arguments

/-- Read the arguments of a run.  A call for help anywhere among them wins over
all else. -/
def readArguments (around : Surroundings) (argv : List Text) :
    Except ArgumentError Invocation :=
  if argv.contains "--help" || argv.contains "-h" then .ok .help
  else
    match Arguments.collect around { color := Arguments.defaultColor around } argv with
    | .error error => .error error
    | .ok arguments =>
        match arguments.settle with
        | .error error => .error error
        | .ok arguments => .ok (.run arguments)

end ShellGloss
