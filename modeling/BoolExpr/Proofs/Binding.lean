import BoolExpr.Proofs.FoldStates
import BoolExpr.Proofs.StackWalks
import BoolExpr.Proofs.TruthFunction

/-!
Binding as what lets a fold succeed. The names that binding asks for are found by one walk over the
tree and looked up by another, the fold; every leaf that the fold still has to visit is a leaf of
the tree, so a table with the names of the first walk never fails in the second. For the same reason
nothing else in a map can be noticed: under two maps that agree on the names of the tree a fold goes
through the same states, and binding and evaluation have the same outcome, failures included. No
smaller table would do.
-/
namespace BoolExpr

namespace Bindings

def AgreeOn (names : List String) (b b' : Bindings) : Prop :=
  ∀ name ∈ names, b.find? name = b'.find? name

structure IsProperPart (part whole : Bindings) : Prop where
  find?_eq : ∀ name ∈ part.names, part.find? name = whole.find? name
  lacks : ∃ name ∈ whole.names, name ∉ part.names

variable {names : List String} {b b' : Bindings}

theorem AgreeOn.mem_names_iff (h : AgreeOn names b b') {name : String} (hname : name ∈ names) :
    name ∈ b.names ↔ name ∈ b'.names := by
  rw [← contains_iff, ← contains_iff, contains, contains, h name hname]

theorem mem_names_restrict (b : Bindings) (vars : NameSet) {name : String} :
    name ∈ (b.restrict vars).names ↔ name ∈ vars ∧ name ∈ b.names := by
  rw [← contains_iff, ← contains_iff, contains, contains, find?_restrict]
  split
  · rename_i hvar
    simp [hvar]
  · rename_i hvar
    simp [hvar]

end Bindings

namespace Expr

namespace FoldState

variable {lookup lookup' : String → Option Bool} {e t : Expr} {n : Nat} {s s' : FoldState}

/-- A step puts no tree on the stack with a name that was not on the stack before. -/
theorem Step.exists_visit (h : Step lookup s s') (ht : .visit t ∈ s'.tasks) {name : String}
    (hname : name ∈ t.names) : ∃ u, .visit u ∈ s.tasks ∧ name ∈ u.names := by
  cases h with
  | literal value tasks values => exact ⟨t, List.mem_cons_of_mem _ ht, hname⟩
  | var hvalue tasks values => exact ⟨t, List.mem_cons_of_mem _ ht, hname⟩
  | join op a b tasks values => exact ⟨t, List.mem_cons_of_mem _ ht, hname⟩
  | enter op left right tasks values =>
    simp only [List.mem_cons, Task.visit.injEq, reduceCtorEq, false_or] at ht
    rcases ht with rfl | rfl | ht
    · exact ⟨.binary op t right, List.mem_cons_self, List.mem_append_left _ hname⟩
    · exact ⟨.binary op left t, List.mem_cons_self, List.mem_append_right _ hname⟩
    · exact ⟨t, List.mem_cons_of_mem _ ht, hname⟩

/-- All names that a fold has yet to look up are names of its tree. -/
theorem Reached.mem_names (h : Reached lookup e n s) (ht : .visit t ∈ s.tasks) {name : String}
    (hname : name ∈ t.names) : name ∈ e.names := by
  induction h generalizing t with
  | start =>
    obtain rfl : t = e := by simpa using ht
    exact hname
  | next h hstep ih =>
    obtain ⟨u, hu, hmem⟩ := hstep.exists_visit ht hname
    exact ih hu hmem

theorem Reached.mem_names_of_var (h : Reached lookup e n s) {name : String} {tasks : List Task}
    (htasks : s.tasks = .visit (.var name) :: tasks) : name ∈ e.names := by
  have htop : .visit (.var name) ∈ s.tasks := by
    rw [htasks]
    exact List.mem_cons_self
  exact h.mem_names htop (List.mem_singleton_self name)

/-- A step depends on no value but that of the leaf that it visits, if it visits one. -/
theorem Step.congr (h : Step lookup s s')
    (hsame : ∀ name tasks, s.tasks = .visit (.var name) :: tasks → lookup name = lookup' name) :
    Step lookup' s s' := by
  cases h with
  | literal value tasks values => exact .literal value tasks values
  | @var name value hvalue tasks values =>
    have heq := hsame name tasks rfl
    exact .var (heq.symm.trans hvalue) tasks values
  | enter op left right tasks values => exact .enter op left right tasks values
  | join op a b tasks values => exact .join op a b tasks values

/-- A fold goes through the same states when the names of the tree have the same values. -/
theorem Reached.congr (h : Reached lookup e n s)
    (hsame : ∀ name ∈ e.names, lookup name = lookup' name) : Reached lookup' e n s := by
  induction h with
  | start => exact .start
  | next h hstep ih =>
    apply ih.next
    apply hstep.congr
    intro name tasks htasks
    exact hsame name (h.mem_names_of_var htasks)

end FoldState

variable {e : Expr} {b b' part : Bindings} {bound bound' : BoundExpr} {failure : ExprError}

theorem mem_missing_iff {name : String} :
    name ∈ e.missing b ↔ name ∈ e.names ∧ name ∉ b.names := by
  rw [missing, NameSet.mem_filter, mem_vars, ← b.contains_iff]
  simp

theorem missing_isEmpty_iff_names :
    (e.missing b).isEmpty = true ↔ ∀ name ∈ e.names, name ∈ b.names := by
  simp only [missing_isEmpty_iff, mem_vars, b.contains_iff]

theorem bind_eq_error_iff :
    e.bind b = .error failure ↔
      (∃ name ∈ e.names, name ∉ b.names) ∧ failure = .unboundVariables (e.missing b) := by
  have hsome : ¬(e.missing b).isEmpty = true ↔ ∃ name ∈ e.names, name ∉ b.names := by
    simp [missing_isEmpty_iff_names]
  rw [← hsome, bind]
  split
  · rename_i hnone
    simp [hnone]
  · rename_i hnone
    simp [hnone, eq_comm]

/-- What binding returns: the tree as it is, with the part of the map that concerns it. -/
theorem bind_eq_ok (h : e.bind b = .ok bound) :
    (∀ name ∈ e.names, name ∈ b.names) ∧ bound.expr = e ∧ bound.bindings = b.restrict e.vars := by
  unfold bind at h
  split at h
  · rename_i hnone
    obtain rfl := Except.ok.inj h
    exact ⟨missing_isEmpty_iff_names.mp hnone, rfl, rfl⟩
  · cases h

end Expr

namespace BoundExpr

variable {bound bound' : BoundExpr} {e : Expr} {b b' : Bindings} {name : String}

def view (bound : BoundExpr) : Expr × (String → Option Bool) := (bound.expr, bound.bindings.find?)

/-- The tree `e` itself, with the values that `b` has for its variables and no other values. -/
structure IsBinding (bound : BoundExpr) (e : Expr) (b : Bindings) : Prop where
  expr_eq : bound.expr = e
  mem_names_iff : ∀ name, name ∈ bound.bindings.names ↔ name ∈ e.names
  find?_eq : ∀ name ∈ e.names, bound.bindings.find? name = b.find? name

structure FoldsSafely (bound : BoundExpr) : Prop where
  finds : ∀ n s, Expr.FoldState.Reached bound.bindings.find? bound.expr n s →
    ∀ name tasks, s.tasks = .visit (.var name) :: tasks → name ∈ bound.bindings.names
  ends : ∃ n, Expr.FoldState.Reached bound.bindings.find? bound.expr n ⟨[], [bound.value]⟩
  fold_eq : bound.expr.fold bound.bindings.find? = .ok bound.value

theorem isBinding_of_bind (h : e.bind b = .ok bound) : bound.IsBinding e b := by
  obtain ⟨hall, hexpr, htable⟩ := Expr.bind_eq_ok h
  refine ⟨hexpr, fun name => ?_, fun name hname => ?_⟩
  · rw [htable, Bindings.mem_names_restrict, Expr.mem_vars]
    exact ⟨fun hmem => hmem.1, fun hname => ⟨hname, hall name hname⟩⟩
  · rw [htable, Bindings.find?_restrict, if_pos (Expr.mem_vars.mpr hname)]

theorem IsBinding.find?_eq_none (h : bound.IsBinding e b) (hname : name ∉ e.names) :
    bound.bindings.find? name = none := by
  rw [Bindings.find?_eq_none_iff, h.mem_names_iff]
  exact hname

/-- The same tree under maps that agree on it looks the same once it has been bound. -/
theorem IsBinding.view_eq (h : bound.IsBinding e b) (h' : bound'.IsBinding e b')
    (hagree : b.AgreeOn e.names b') : bound.view = bound'.view := by
  apply Prod.ext (h.expr_eq.trans h'.expr_eq.symm)
  funext name
  show bound.bindings.find? name = bound'.bindings.find? name
  by_cases hname : name ∈ e.names
  · rw [h.find?_eq name hname, h'.find?_eq name hname, hagree name hname]
  · rw [h.find?_eq_none hname, h'.find?_eq_none hname]

theorem mem_names_of_mem (bound : BoundExpr) (hname : name ∈ bound.expr.names) :
    name ∈ bound.bindings.names :=
  (bound.bindings.contains_iff name).mp (bound.covers name hname)

/-- The fold of what has been bound never comes to a name without a value. -/
theorem foldsSafely (bound : BoundExpr) : bound.FoldsSafely := by
  have hfinds : ∀ n s, Expr.FoldState.Reached bound.bindings.find? bound.expr n s →
      ∀ name tasks, s.tasks = .visit (.var name) :: tasks → name ∈ bound.bindings.names :=
    fun n s h name tasks htasks => bound.mem_names_of_mem (h.mem_names_of_var htasks)
  obtain ⟨value, hvalue⟩ := bound.fold_isOk
  have hfold : bound.expr.fold bound.bindings.find? = .ok bound.value := by
    rw [value_of_fold hvalue, hvalue]
  refine ⟨hfinds, ?_, hfold⟩
  have hfirst : bound.expr.firstUnknown? bound.bindings.find? = none := by
    rw [Expr.firstUnknown?_eq_none_iff]
    exact fun name hname => bound.covers name (Expr.mem_vars.mp hname)
  obtain ⟨n, s, hreached, hlast⟩ :=
    Expr.FoldState.exists_reached_last bound.bindings.find? bound.expr
  have hend := hreached.last hlast
  rw [Expr.fold_eq_eval, Expr.eval_eq_firstUnknown?, hfirst] at hfold
  rw [hfirst] at hend
  exact ⟨n, by rw [← Except.ok.inj hfold]; exact hend ▸ hreached⟩

end BoundExpr

namespace Expr

variable {e : Expr} {b b' part : Bindings} {bound bound' : BoundExpr}

theorem exists_bind_iff :
    (∃ bound, e.bind b = .ok bound) ↔ ∀ name ∈ e.names, name ∈ b.names := by
  constructor
  · rintro ⟨bound, hbound⟩
    exact (bind_eq_ok hbound).1
  · intro hall
    cases hbind : e.bind b with
    | ok bound => exact ⟨bound, rfl⟩
    | error failure =>
      obtain ⟨⟨name, hname, hlacks⟩, -⟩ := bind_eq_error_iff.mp hbind
      exact absurd (hall name hname) hlacks

theorem missing_congr (h : b.AgreeOn e.names b') : e.missing b = e.missing b' := by
  apply NameSet.ext
  intro name
  rw [mem_missing_iff, mem_missing_iff]
  exact and_congr_right fun hname => not_congr (h.mem_names_iff hname)

/-- Binding does not notice what else is in a map. -/
theorem bind_congr (h : b.AgreeOn e.names b') :
    (e.bind b).map BoundExpr.view = (e.bind b').map BoundExpr.view := by
  have hnames : (∀ name ∈ e.names, name ∈ b.names) ↔ ∀ name ∈ e.names, name ∈ b'.names :=
    forall₂_congr fun name hname => h.mem_names_iff hname
  cases hb : e.bind b with
  | ok bound =>
    obtain ⟨bound', hb'⟩ := exists_bind_iff.mpr (hnames.mp (bind_eq_ok hb).1)
    have hview : bound.view = bound'.view :=
      (BoundExpr.isBinding_of_bind hb).view_eq (BoundExpr.isBinding_of_bind hb') h
    rw [hb']
    exact congrArg Except.ok hview
  | error failure =>
    obtain ⟨⟨name, hname, hlacks⟩, rfl⟩ := bind_eq_error_iff.mp hb
    have hlacks' : name ∉ b'.names := mt (h.mem_names_iff hname).mpr hlacks
    rw [bind_eq_error_iff.mpr ⟨⟨name, hname, hlacks'⟩, rfl⟩, missing_congr h]

/-- Nor does evaluation. -/
theorem evaluate_congr (h : b.AgreeOn e.names b') : e.evaluate b = e.evaluate b' := by
  have htruth : e.truth (fun name => (b.find? name).getD false) =
      e.truth fun name => (b'.find? name).getD false :=
    truth_congr fun name hname => congrArg (Option.getD · false) (h name hname)
  rw [evaluate_eq, evaluate_eq, missing_congr h, htruth]

/-- Without one of the names in the table of a bound tree, the tree cannot be bound. -/
theorem bind_isProperPart (h : bound.IsBinding e b) (hpart : part.IsProperPart bound.bindings) :
    ∃ failure, e.bind part = .error failure := by
  obtain ⟨name, hname, hlacks⟩ := hpart.lacks
  have hleaf : name ∈ e.names := (h.mem_names_iff name).mp hname
  exact ⟨_, bind_eq_error_iff.mpr ⟨⟨name, hleaf, hlacks⟩, rfl⟩⟩

/-- Binding is exact. It asks for the names at the leaves of the tree, as a walk with a stack
collects them, and fails if and only if one of them is no name of the map; then it reports all such
names, each of them once. Otherwise it returns the tree as it is, with the values that the map has
for its names and with nothing else, and all of that is needed: the fold finds each name that it
looks up, and no proper part of the table is enough to bind the tree. Maps that agree on the names
of the tree, whatever else they hold, cannot be told apart: not by binding, not by evaluation, and
not by any state that the fold goes through. -/
theorem bind_exact (e : Expr) (b : Bindings) :
    (collectFrom [e] .empty = e.vars ∧ ∀ name, name ∈ e.vars ↔ name ∈ e.names) ∧
    ((∃ failure, e.bind b = .error failure) ↔ ∃ name ∈ e.names, name ∉ b.names) ∧
    (∀ failure, e.bind b = .error failure →
      ∃ missing : NameSet, failure = .unboundVariables missing ∧ missing.toList.Nodup ∧
        ∀ name, name ∈ missing ↔ name ∈ e.names ∧ name ∉ b.names) ∧
    ((∀ name ∈ e.names, name ∈ b.names) →
      ∃ bound, e.bind b = .ok bound ∧ bound.IsBinding e b ∧ bound.FoldsSafely ∧
        e.evaluate b = .ok bound.value ∧
        ∀ part, part.IsProperPart bound.bindings → ∃ failure, e.bind part = .error failure) ∧
    ∀ b', b.AgreeOn e.names b' →
      (e.bind b).map BoundExpr.view = (e.bind b').map BoundExpr.view ∧
      e.evaluate b = e.evaluate b' ∧
      (∀ (engine : Engine) source, engine.parse source = .ok e →
        engine.evaluate source b = engine.evaluate source b') ∧
      ∀ n s, FoldState.Reached b.find? e n s ↔ FoldState.Reached b'.find? e n s := by
  refine ⟨⟨collectFrom_eq_vars e, fun name => mem_vars⟩, ?_, ?_, ?_, ?_⟩
  · simp only [bind_eq_error_iff, exists_and_left, exists_eq, and_true]
  · intro failure hfailure
    obtain ⟨-, rfl⟩ := bind_eq_error_iff.mp hfailure
    have hnodup : (e.missing b).toList.Nodup :=
      (e.missing b).increasing.imp fun hlt heq => absurd (heq ▸ hlt) Std.lt_irrefl
    exact ⟨e.missing b, rfl, hnodup, fun name => mem_missing_iff⟩
  · intro hall
    obtain ⟨bound, hbound⟩ := exists_bind_iff.mpr hall
    have hbinding := BoundExpr.isBinding_of_bind hbound
    refine ⟨bound, hbound, hbinding, bound.foldsSafely, ?_, fun part => bind_isProperPart hbinding⟩
    rw [evaluate, hbound]
    rfl
  · intro b' h
    refine ⟨bind_congr h, evaluate_congr h, ?_, ?_⟩
    · intro engine source hparse
      rw [Engine.evaluate_of_parse hparse, Engine.evaluate_of_parse hparse, evaluate_congr h]
    · intro n s
      exact ⟨fun hreached => hreached.congr h,
        fun hreached => hreached.congr fun name hname => (h name hname).symm⟩

end Expr

end BoolExpr
