import BoolExpr.Engine
import BoolExpr.Proofs.Outcome

/-!
Evaluation of a tree under a map. What the fold finds, where all names have a value, is the value by
recursion on the tree; so evaluation either fails with the set of all variables that lack a value,
or has the value of the tree, whatever else the map holds. The engine reads a text in three stages,
each of which has its equation here.
-/
namespace BoolExpr

namespace BoundExpr

theorem value_of_fold {bound : BoundExpr} {v : Bool}
    (h : bound.expr.fold bound.bindings.find? = .ok v) : bound.value = v := by
  unfold value
  split
  · rename_i found hfound
    exact Except.ok.inj (hfound.symm.trans h)
  · rename_i e herror
    cases (herror.symm.trans h)

end BoundExpr

namespace Expr

def truth (b : String → Bool) : Expr → Bool
  | .literal value => value
  | .var name => b name
  | .binary .and left right => left.truth b && right.truth b
  | .binary .or left right => left.truth b || right.truth b

/-- What the operators compute is what they mean. -/
theorem truth_binary (b : String → Bool) (op : Op) (left right : Expr) :
    (binary op left right).truth b = op.apply (left.truth b) (right.truth b) := by
  cases op with
  | and => rfl
  | or => rfl

/-- Where all names have a value, evaluation finds that of the tree. -/
theorem eval_eq_truth {lookup : String → Option Bool} {b : String → Bool} {e : Expr}
    (h : ∀ name ∈ e.names, lookup name = some (b name)) : e.eval lookup = .ok (e.truth b) := by
  induction e with
  | literal value => rfl
  | var name => simp only [eval, h name (by simp [names]), truth]
  | binary op left right ihl ihr =>
    have hleft := ihl fun name hname => h name (by simp [names, hname])
    have hright := ihr fun name hname => h name (by simp [names, hname])
    simp only [eval, hleft, hright, truth_binary]
    rfl

theorem missing_isEmpty_iff {e : Expr} {b : Bindings} :
    (e.missing b).isEmpty = true ↔ ∀ name ∈ e.vars, b.contains name = true := by
  rw [NameSet.isEmpty_iff]
  refine forall_congr' fun name => ?_
  rw [missing, NameSet.mem_filter]
  cases b.contains name <;> simp

/-- Evaluation fails with all variables that lack a value, or else finds the value of the tree. -/
theorem evaluate_eq (e : Expr) (b : Bindings) :
    e.evaluate b =
      if (e.missing b).isEmpty then .ok (e.truth fun name => (b.find? name).getD false)
      else .error (.unboundVariables (e.missing b)) := by
  unfold evaluate bind
  split
  · rename_i hnone
    have hlookup : ∀ name ∈ e.names,
        (b.restrict e.vars).find? name = some ((b.find? name).getD false) := by
      intro name hname
      have hvar : name ∈ e.vars := mem_vars.mpr hname
      have hfound : (b.find? name).isSome = true := missing_isEmpty_iff.mp hnone name hvar
      obtain ⟨value, hvalue⟩ := Option.isSome_iff_exists.mp hfound
      rw [Bindings.find?_restrict, if_pos hvar, hvalue]
      rfl
    refine congrArg Except.ok (BoundExpr.value_of_fold ?_)
    rw [fold_eq_eval, eval_eq_truth hlookup]
    rfl
  · rfl

/-- Under values for all its variables a tree has the value that recursion finds. -/
theorem evaluate_of_contains {e : Expr} {b : Bindings}
    (h : ∀ n ∈ e.vars, b.contains n = true) :
    e.evaluate b = .ok (e.truth fun n => (b.find? n).getD false) := by
  rw [evaluate_eq, if_pos (missing_isEmpty_iff.mpr h)]

theorem contains_of_evaluate {e : Expr} {b : Bindings} {value : Bool}
    (h : e.evaluate b = .ok value) : ∀ name ∈ e.vars, b.contains name = true := by
  rw [← missing_isEmpty_iff]
  rw [evaluate_eq] at h
  split at h
  · assumption
  · cases h

end Expr

namespace Engine

variable {engine : Engine} {source : String} {tokens : List Token}

theorem evaluate_of_parse {e : Expr} (h : engine.parse source = .ok e) (b : Bindings) :
    engine.evaluate source b = e.evaluate b := by
  rw [evaluate, h]
  rfl

theorem evaluate_of_parse_error {e : ExprError} (h : engine.parse source = .error e)
    (b : Bindings) : engine.evaluate source b = .error e := by
  rw [evaluate, h]
  rfl

theorem admits_eq_false_iff (engine : Engine) (length : Nat) :
    engine.admits length = false ↔ engine.maxLength ≠ 0 ∧ engine.maxLength < length := by
  simp [admits]

theorem parse_of_not_admits (h : ¬engine.admits source.length = true) :
    engine.parse source = .error (.tooLong source.length engine.maxLength) := by
  rw [parse, if_neg h]

theorem parse_of_admits (h : engine.admits source.length = true) :
    engine.parse source = (do
      let tokens ← (Token.lex source).mapError .lexical
      (Expr.ofTokens engine.nesting tokens).mapError .malformed) := by
  rw [parse, if_pos h]

theorem parse_tooLong (h : engine.maxLength ≠ 0 ∧ engine.maxLength < source.length) :
    engine.parse source = .error (.tooLong source.length engine.maxLength) := by
  have hnot : engine.admits source.length = false :=
    (engine.admits_eq_false_iff source.length).mpr h
  exact parse_of_not_admits (by simp [hnot])

theorem admits_of_not_tooLong (h : ¬(engine.maxLength ≠ 0 ∧ engine.maxLength < source.length)) :
    engine.admits source.length = true := by
  rw [← Bool.not_eq_false, admits_eq_false_iff]
  exact h

theorem parse_of_lex_error (h : ¬(engine.maxLength ≠ 0 ∧ engine.maxLength < source.length))
    {e : LexError} (hlex : Token.lex source = .error e) :
    engine.parse source = .error (.lexical e) := by
  rw [parse_of_admits (admits_of_not_tooLong h), hlex]
  rfl

theorem parse_of_lex (h : ¬(engine.maxLength ≠ 0 ∧ engine.maxLength < source.length))
    (hlex : Token.lex source = .ok tokens) :
    engine.parse source = (Expr.ofTokens engine.nesting tokens).mapError .malformed := by
  rw [parse_of_admits (admits_of_not_tooLong h), hlex]
  rfl

/-- What it takes to be read: the length, and tokens that are an expression. -/
theorem parse_eq_ok_iff {e : Expr} :
    engine.parse source = .ok e ↔
      engine.admits source.length = true ∧
        ∃ tokens, Token.lex source = .ok tokens ∧ Expr.ofTokens engine.nesting tokens = .ok e := by
  by_cases h : engine.admits source.length = true
  · rw [parse_of_admits h, Outcome.bind_eq_ok]
    simp only [Outcome.mapError_eq_ok, h, true_and]
  · rw [parse_of_not_admits h]
    simp [h]

/-- A text is refused for its length, for a lexical error, or because its tokens are no
expression. -/
theorem parse_eq_error {e : ExprError} (h : engine.parse source = .error e) :
    (∃ length limit, e = .tooLong length limit) ∨
    (∃ e', Token.lex source = .error e' ∧ e = .lexical e') ∨
    ∃ tokens e', Token.lex source = .ok tokens ∧
      Expr.ofTokens engine.nesting tokens = .error e' ∧ e = .malformed e' := by
  by_cases hlong : engine.maxLength ≠ 0 ∧ engine.maxLength < source.length
  · rw [parse_tooLong hlong, Except.error.injEq] at h
    exact Or.inl ⟨_, _, h.symm⟩
  · cases hlex : Token.lex source with
    | error e' =>
      rw [parse_of_lex_error hlong hlex, Except.error.injEq] at h
      exact Or.inr (Or.inl ⟨e', rfl, h.symm⟩)
    | ok tokens =>
      rw [parse_of_lex hlong hlex] at h
      cases hread : Expr.ofTokens engine.nesting tokens with
      | ok tree =>
        rw [hread] at h
        cases h
      | error e' =>
        rw [hread, Outcome.mapError_error, Except.error.injEq] at h
        exact Or.inr (Or.inr ⟨tokens, e', rfl, hread, h.symm⟩)

theorem validate_eq_invalid_iff {e : ExprError} :
    engine.validate source = .invalid e ↔ engine.parse source = .error e := by
  unfold validate
  cases engine.parse source <;> simp

end Engine

end BoolExpr
