import BoolExpr.Command

/-!
The program: its arguments are a command line, and its environment holds the settings.
-/
namespace BoolExpr.Program

def environmentNames : List String :=
  ["LOGEXP_APP_TITLE", "LOGEXP_APP_VERSION", "LOGEXP_LOG_LEVEL", "LOGEXP_MAX_EXPRESSION_LENGTH",
    "LOGEXP_MAX_NESTING_DEPTH"]

/-- The variables of the environment that concern the program, in capitals or in small letters. -/
def environment : IO (List (String × String)) := do
  let names := environmentNames ++ environmentNames.map String.toLower
  let found ← names.mapM fun name => return (← IO.getEnv name).map (name, ·)
  return found.filterMap id

def usage : String :=
  "usage: eval EXPRESSION [--var NAME=0|1]...\n" ++
    "       validate EXPRESSION\n" ++
    "       parse EXPRESSION [--json]\n" ++
    "       vars EXPRESSION\n"

def problemLine (p : Settings.Problem) : String := p.field ++ ": " ++ p.fault.code ++ "\n"

end BoolExpr.Program

open BoolExpr BoolExpr.Program in
def main (args : List String) : IO UInt32 := do
  match Command.request args with
  | .usageError =>
    IO.eprint usage
    return 2
  | .help =>
    IO.print usage
    return 0
  | .run command =>
    match command.run (← environment) with
    | .ok outcome =>
      IO.print outcome.stdout
      IO.eprint outcome.stderr
      return UInt32.ofNat outcome.exit
    | .error problems =>
      IO.eprint (String.join (problems.map problemLine))
      return 1
