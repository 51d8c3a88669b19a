import BoolExpr.Expr.Fold

/-!
An expression together with values for all of its variables and for nothing else. Binding fails
with the whole set of variables that lack a value; what has been bound always has a value.
-/
namespace BoolExpr

structure BoundExpr where
  expr : Expr
  bindings : Bindings
  covers : ∀ name ∈ expr.names, (bindings.find? name).isSome = true

namespace Expr

def missing (e : Expr) (b : Bindings) : NameSet := e.vars.filter fun name => !b.contains name

/-- Pairs an expression with the part of a map that concerns its variables. -/
def bind (e : Expr) (b : Bindings) : Except ExprError BoundExpr :=
  if h : (e.missing b).isEmpty = true then
    .ok ⟨e, b.restrict e.vars, fun name hname => by
      have hvar : name ∈ e.vars := mem_vars.mpr hname
      have hnot := NameSet.isEmpty_iff.mp h name
      rw [missing, NameSet.mem_filter] at hnot
      have hfound : b.contains name = true := by
        cases hc : b.contains name with
        | true => rfl
        | false => exact absurd ⟨hvar, by simp [hc]⟩ hnot
      rw [Bindings.find?_restrict, if_pos hvar]
      exact hfound⟩
  else .error (.unboundVariables (e.missing b))

end Expr

namespace BoundExpr

theorem fold_isOk (bound : BoundExpr) :
    ∃ value, bound.expr.fold bound.bindings.find? = .ok value := by
  obtain ⟨value, h⟩ := bound.expr.eval_isOk_of_names bound.bindings.find? bound.covers
  exact ⟨value, by rw [Expr.fold_eq_eval, h]; rfl⟩

/-- The value, which the fold finds since every variable has one. -/
def value (bound : BoundExpr) : Bool :=
  match h : bound.expr.fold bound.bindings.find? with
  | .ok value => value
  | .error e => absurd bound.fold_isOk (by rintro ⟨value, hv⟩; rw [hv] at h; exact nomatch h)

end BoundExpr

end BoolExpr
