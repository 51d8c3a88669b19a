import BoolExpr.Command.Arguments
import BoolExpr.Document
import BoolExpr.Json.Printer
import BoolExpr.Settings
import BoolExpr.TreeDrawing

/-!
Commands and what comes of them: what is written to the two output streams, and the exit code.
A command reads its settings from the environment first, except that values for variables are
looked at before that.
-/
namespace BoolExpr

structure Outcome where
  exit : Nat
  stdout : String
  stderr : String
deriving DecidableEq

namespace Outcome

def lines (texts : List String) : String := String.join (texts.map (· ++ "\n"))

def success (texts : List String) : Outcome := ⟨0, lines texts, ""⟩

def failed (exit : Nat) (text : String) : Outcome := ⟨exit, "", lines [text]⟩

def refused (e : ExprError) : Outcome := failed 1 s!"error [{e.kind}]: {e.message}"

end Outcome

namespace Command

/-- A name and a raw value from an item of the form NAME=VALUE, without blanks around them. -/
def splitItem? (item : String) : Option (String × String) :=
  match splitEquals item.toList with
  | (name, some value) =>
    some (Text.strip (String.ofList name), Text.strip (String.ofList value))
  | (_, none) => none

/-- The pairs of all items, or the first item that is not of the form. -/
def splitItems : List String → Except String (List (String × String))
  | [] => .ok []
  | item :: items =>
    match splitItem? item with
    | some pair => (splitItems items).map (pair :: ·)
    | none => .error item

def verdictOutcome : Verdict → Outcome
  | .valid => .success ["valid"]
  | .invalid e =>
    let place := e.position?.elim "" fun position => s!" at position {position}"
    .failed 1 s!"invalid [{e.kind}]{place}: {e.message}"

/-- The last line of the drawn form of a tree. -/
def variablesLine (e : Expr) : String :=
  let names := e.vars.toList
  "variables: " ++ if names.isEmpty then "-" else String.intercalate ", " names

def parseOutcome (source : String) (json : Bool) (e : Expr) : Outcome :=
  if json then .success [(e.document source).indented]
  else .success (e.drawing ++ [variablesLine e])

def evalOutcome (engine : Engine) (source : String) (b : Bindings) : Outcome :=
  match engine.evaluate source b with
  | .ok value => .success [if value then "true" else "false"]
  | .error e => .refused e

def withTree (engine : Engine) (source : String) (use : Expr → Outcome) : Outcome :=
  match engine.parse source with
  | .ok e => use e
  | .error e => .refused e

def run (env : List (String × String)) : Command → Except (List Settings.Problem) Outcome
  | .eval source items =>
    match splitItems items with
    | .error item => .ok (.failed 2 s!"error: --var expects NAME=0|1, got {Text.quote item}")
    | .ok pairs =>
      match Bindings.ofRaw pairs with
      | .error e => .ok (.refused e)
      | .ok b => (Settings.ofEnvironment env).map fun s => evalOutcome s.engine source b
  | .validate source =>
    (Settings.ofEnvironment env).map fun s => verdictOutcome (s.engine.validate source)
  | .parse source json =>
    (Settings.ofEnvironment env).map fun s => withTree s.engine source (parseOutcome source json)
  | .vars source =>
    (Settings.ofEnvironment env).map fun s =>
      withTree s.engine source fun e => .success e.vars.toList

end Command

end BoolExpr
