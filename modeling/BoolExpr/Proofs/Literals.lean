import Mathlib.Data.List.Forall2
import BoolExpr.Proofs.Derivation
import BoolExpr.Proofs.Evaluation

/-!
Derivations with other literals. The value of a literal has no part in how tokens are grouped, so
when tokens are changed in nothing but the values of literals, the derivation stays what it was, and
its tree has the new values at the same leaves. Neither operator turns a greater operand into a
lesser value; so the value of a tree can only grow with its literals and its variables.
-/
namespace BoolExpr

/-- The same kind, and the same name of a variable; the values of literals are related. -/
structure Token.UpToLiterals (L : Bool → Bool → Prop) (t t' : Token) : Prop where
  literal : ∀ value, t.kind = .literal value → ∃ value', t'.kind = .literal value' ∧ L value value'
  kind_eq : (∀ value, t.kind ≠ .literal value) → t'.kind = t.kind
  text_eq : t.kind = .var → t'.text = t.text

inductive Expr.UpToLiterals (L : Bool → Bool → Prop) : Expr → Expr → Prop
  | literal {value value' : Bool} (h : L value value') :
      UpToLiterals L (.literal value) (.literal value')
  | var (name : String) : UpToLiterals L (.var name) (.var name)
  | binary (op : Op) {left left' right right' : Expr} (hleft : UpToLiterals L left left')
      (hright : UpToLiterals L right right') :
      UpToLiterals L (.binary op left right) (.binary op left' right')

/-- A list that is related to two in a row is two in a row. -/
theorem exists_append_of_forall₂ {α β : Type} {R : α → β → Prop} {xs ys : List α} {zs : List β}
    (h : List.Forall₂ R (xs ++ ys) zs) :
    ∃ us vs, zs = us ++ vs ∧ List.Forall₂ R xs us ∧ List.Forall₂ R ys vs := by
  refine ⟨zs.take xs.length, zs.drop xs.length, (List.take_append_drop _ _).symm, ?_, ?_⟩
  · exact (List.forall₂_take_append zs xs ys h.flip).flip
  · exact (List.forall₂_drop_append zs xs ys h.flip).flip

variable {L : Bool → Bool → Prop}

namespace Grammar.Derivation

/-- Tokens that are the same up to literals have the same derivation up to literals. -/
theorem exists_of_upToLiterals {l : Level} (d : Derivation l) {tokens : List Token}
    (h : List.Forall₂ (Token.UpToLiterals L) d.yield tokens) :
    ∃ d' : Derivation l,
      d'.yield = tokens ∧ d.tree.UpToLiterals L d'.tree ∧ d'.depth = d.depth := by
  induction d generalizing tokens with
  | literal t value ht =>
    obtain ⟨u, _, htu, hnil, rfl⟩ := List.forall₂_cons_left_iff.mp h
    obtain rfl := List.forall₂_nil_left_iff.mp hnil
    obtain ⟨value', hu, hvalue⟩ := htu.literal value ht
    exact ⟨.literal u value' hu, rfl, .literal hvalue, rfl⟩
  | var t ht =>
    obtain ⟨u, _, htu, hnil, rfl⟩ := List.forall₂_cons_left_iff.mp h
    obtain rfl := List.forall₂_nil_left_iff.mp hnil
    refine ⟨.var u ((htu.kind_eq (by simp [ht])).trans ht), rfl, ?_, rfl⟩
    rw [tree, tree, htu.text_eq ht]
    exact .var t.text
  | group left hleft body right hright ih =>
    obtain ⟨left', _, hopening, hrest, rfl⟩ := List.forall₂_cons_left_iff.mp h
    obtain ⟨_, _, rfl, hinner, hlast⟩ := exists_append_of_forall₂ hrest
    obtain ⟨right', _, hclosing, hnil, rfl⟩ := List.forall₂_cons_left_iff.mp hlast
    obtain rfl := List.forall₂_nil_left_iff.mp hnil
    obtain ⟨d', rfl, htree, hdepth⟩ := ih hinner
    have hleft' : left'.kind = .opening := (hopening.kind_eq (by simp [hleft])).trans hleft
    have hright' : right'.kind = .closing := (hclosing.kind_eq (by simp [hright])).trans hright
    exact ⟨.group left' hleft' d' right' hright', rfl, htree, congrArg Nat.succ hdepth⟩
  | single first ih =>
    obtain ⟨d', rfl, htree, hdepth⟩ := ih h
    exact ⟨.single d', rfl, htree, hdepth⟩
  | @join op front t ht last ihf ihl =>
    obtain ⟨_, _, rfl, hfront, hrest⟩ := exists_append_of_forall₂ h
    obtain ⟨u, _, htu, hlast, rfl⟩ := List.forall₂_cons_left_iff.mp hrest
    obtain ⟨d', rfl, htree, hdepth⟩ := ihf hfront
    obtain ⟨d'', rfl, htree', hdepth'⟩ := ihl hlast
    have hu : u.kind = .operator op := (htu.kind_eq (by simp [ht])).trans ht
    refine ⟨.join d' u hu d'', rfl, .binary op htree htree', ?_⟩
    rw [depth, depth, hdepth, hdepth']

end Grammar.Derivation

namespace Expr

variable {e e' : Expr}

theorem UpToLiterals.eq (h : e.UpToLiterals Eq e') : e = e' := by
  induction h with
  | literal h => rw [h]
  | var name => rfl
  | binary op hleft hright ihl ihr => rw [ihl, ihr]

theorem UpToLiterals.names_eq (h : e.UpToLiterals L e') : e.names = e'.names := by
  induction h with
  | literal h => rfl
  | var name => rfl
  | binary op hleft hright ihl ihr => rw [names, names, ihl, ihr]

theorem UpToLiterals.refl (h : ∀ value, L value value) (e : Expr) : e.UpToLiterals L e := by
  induction e with
  | literal value => exact .literal (h value)
  | var name => exact .var name
  | binary op left right ihl ihr => exact .binary op ihl ihr

end Expr

theorem Op.apply_le_apply (op : Op) {a a' b b' : Bool} (ha : a ≤ a') (hb : b ≤ b') :
    op.apply a b ≤ op.apply a' b' := by
  revert a a' b b'
  cases op <;> decide

/-- With greater literals and greater values of its variables, the value of a tree is no less. -/
theorem Expr.UpToLiterals.truth_le {e e' : Expr} {b b' : String → Bool}
    (h : e.UpToLiterals (· ≤ ·) e') (hb : ∀ name ∈ e.names, b name ≤ b' name) :
    e.truth b ≤ e'.truth b' := by
  induction h with
  | literal hvalue => exact hvalue
  | var name => exact hb name (List.mem_singleton_self name)
  | binary op hleft hright ihl ihr =>
    have hl := ihl fun name hname => hb name (List.mem_append_left _ hname)
    have hr := ihr fun name hname => hb name (List.mem_append_right _ hname)
    rw [truth_binary, truth_binary]
    exact op.apply_le_apply hl hr

end BoolExpr
