import BoolExpr.Engine
import BoolExpr.Text.Integer
import BoolExpr.Text.Lowercase

/-!
Settings from environment variables. A variable counts when its name in lowercase is that of a
field after the word logexp_; of several such variables the last one counts. All fields that
cannot be read are reported together.
-/
namespace BoolExpr

structure Settings where
  appTitle : String
  appVersion : String
  logLevel : String
  maxExpressionLength : Int
  nesting : NestingLimit

namespace Settings

inductive Fault where
  | unreadable (e : Text.IntegerError)
  | tooSmall
  | tooLarge
deriving DecidableEq

def Fault.code : Fault → String
  | .unreadable .notAnInteger => "int_parsing"
  | .unreadable .tooLong => "int_parsing_size"
  | .tooSmall => "greater_than_equal"
  | .tooLarge => "less_than_equal"

structure Problem where
  field : String
  fault : Fault
deriving DecidableEq

def standard : Settings := ⟨"LogExp", "0.1.0", "INFO", 4096, .standard⟩

instance : Inhabited Settings := ⟨standard⟩

def engine (s : Settings) : Engine := ⟨s.maxExpressionLength, s.nesting⟩

def raw? (env : List (String × String)) (field : String) : Option String :=
  (env.reverse.find? fun entry => Text.lowercase entry.1 = "logexp_" ++ field).map Prod.snd

def readLength (raw : String) : Except Fault Int :=
  (Text.readInteger raw).mapError .unreadable

def readNesting (raw : String) : Except Fault NestingLimit :=
  match Text.readInteger raw with
  | .error e => .error (.unreadable e)
  | .ok n =>
    if low : n < 1 then .error .tooSmall
    else if high : NestingLimit.max < n then .error .tooLarge
    else .ok ⟨n.toNat, by omega, by omega⟩

/-- Reads a field, which keeps its standard value where the environment does not name it. -/
def field {α : Type} (env : List (String × String)) (name : String) (read : String → Except Fault α)
    (default : α) : Except Problem α :=
  match raw? env name with
  | none => .ok default
  | some raw => (read raw).mapError (⟨name, ·⟩)

/-- The settings that an environment gives, or the problems in the order of the field names. -/
def ofEnvironment (env : List (String × String)) : Except (List Problem) Settings :=
  let text := fun name default => (raw? env name).getD default
  let length := field env "max_expression_length" readLength standard.maxExpressionLength
  let nesting := field env "max_nesting_depth" readNesting standard.nesting
  match length, nesting with
  | .ok length, .ok nesting =>
    .ok ⟨text "app_title" standard.appTitle, text "app_version" standard.appVersion,
      text "log_level" standard.logLevel, length, nesting⟩
  | .error p, .ok _ => .error [p]
  | .ok _, .error q => .error [q]
  | .error p, .error q => .error [p, q]

end Settings

end BoolExpr
