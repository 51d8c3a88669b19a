import BoolExpr.Proofs.Literals

/-!
Substitution of an expression for a variable. In a tree it is done at the leaves, and the value of
what comes out is that of the tree when the variable has the value of the expression; a map of
values can be changed at one name to say so. In a derivation an operand takes the place of each
token of the variable, and a derivation fits any tokens of the same kinds and texts, wherever they
stand.
-/
namespace BoolExpr

namespace Expr

variable {e : Expr}

def substitute (e : Expr) (name : String) (filling : Expr) : Expr :=
  match e with
  | .literal value => .literal value
  | .var other => if other = name then filling else .var other
  | .binary op left right =>
    .binary op (left.substitute name filling) (right.substitute name filling)

theorem truth_substitute (b : String → Bool) (e : Expr) (name : String) (filling : Expr) :
    (e.substitute name filling).truth b =
      e.truth fun other => if other = name then filling.truth b else b other := by
  induction e with
  | literal value => rfl
  | var other =>
    rw [substitute, truth]
    split
    · rfl
    · rfl
  | binary op left right ihl ihr => rw [substitute, truth_binary, truth_binary, ihl, ihr]

theorem mem_names_substitute (e : Expr) (name : String) (filling : Expr) {n : String} :
    n ∈ (e.substitute name filling).names ↔
      n ∈ e.names ∧ n ≠ name ∨ name ∈ e.names ∧ n ∈ filling.names := by
  induction e with
  | literal value => simp [substitute, names]
  | var other =>
    rw [substitute]
    by_cases hother : other = name
    · rw [if_pos hother]
      simp [names, hother]
    · rw [if_neg hother]
      simp only [names, List.mem_singleton]
      constructor
      · rintro rfl
        exact Or.inl ⟨rfl, hother⟩
      · rintro (⟨rfl, -⟩ | ⟨rfl, -⟩)
        · rfl
        · exact absurd rfl hother
  | binary op left right ihl ihr =>
    simp only [substitute, names, List.mem_append, ihl, ihr]
    rw [or_and_right, or_and_right, or_or_or_comm]

/-- The variable gives way to the variables of what is put in its place, if it was there. -/
theorem vars_substitute (e : Expr) (name : String) (filling : Expr) :
    (e.substitute name filling).vars =
      (e.vars.filter fun n => n ≠ name).union (if name ∈ e.vars then filling.vars else .empty) := by
  refine NameSet.ext fun n => ?_
  rw [mem_vars, mem_names_substitute, NameSet.mem_union, NameSet.mem_filter, mem_vars]
  by_cases hname : name ∈ e.vars
  · simp [hname, mem_vars.mp hname, mem_vars]
  · simp [hname, mt mem_vars.mpr hname]

end Expr

namespace Bindings

theorem find?_add (b : Bindings) (name : String) (value : Bool) (n : String) :
    (b.add name value).find? n = (b.find? n).or (if n = name then some value else none) := by
  unfold add
  split
  · rename_i hmem
    by_cases hn : n = name
    · subst hn
      obtain ⟨found, hfound⟩ := Option.isSome_iff_exists.mp ((b.contains_iff n).mpr hmem)
      rw [hfound]
      rfl
    · rw [if_neg hn, Option.or_none]
  · rw [find?, List.lookup_append]
    by_cases hn : n = name
    · simp [find?, hn]
    · have hne : (n == name) = false := by simpa using hn
      simp [find?, List.lookup_cons, hn, hne]

/-- In a map made from pairs, a name has the first value that it has among them. -/
theorem find?_ofList (pairs : List (String × Bool)) (n : String) :
    (ofList pairs).find? n = pairs.lookup n := by
  -- stated for every map that the fold may have reached, whose names come first
  have hfold : ∀ b : Bindings, (pairs.foldl (fun b pair => b.add pair.1 pair.2) b).find? n =
      (b.find? n).or (pairs.lookup n) := by
    induction pairs with
    | nil => intro b; exact (Option.or_none).symm
    | cons pair rest ih =>
      intro b
      rw [List.foldl_cons, ih, find?_add, Option.or_assoc, List.lookup_cons]
      by_cases hn : n = pair.1
      · simp [hn]
      · have hne : (n == pair.1) = false := by simpa using hn
        simp [hn, hne]
  rw [ofList, hfold]
  rfl

def set (b : Bindings) (name : String) (value : Bool) : Bindings :=
  ofList ((name, value) :: b.entries)

theorem find?_set (b : Bindings) (name : String) (value : Bool) (n : String) :
    (b.set name value).find? n = if n = name then some value else b.find? n := by
  rw [set, find?_ofList, List.lookup_cons]
  by_cases hn : n = name
  · simp [hn]
  · have hne : (n == name) = false := by simpa using hn
    simp [hn, hne, find?]

theorem contains_set {b : Bindings} {name : String} {value : Bool} {n : String} :
    (b.set name value).contains n = true ↔ n = name ∨ b.contains n = true := by
  rw [contains, find?_set]
  by_cases hn : n = name
  · simp [hn]
  · simp [hn, contains]

end Bindings

namespace Expr

variable {e filling : Expr} {name : String} {b : Bindings}

/-- The value after a substitution is that of the expression when the variable has the value of what
is put in its place. -/
theorem evaluate_substitute (hb : ∀ n ∈ (e.substitute name filling).vars, b.contains n = true)
    (hfilling : ∀ n ∈ filling.vars, b.contains n = true) :
    ∃ value result, filling.evaluate b = .ok value ∧
      (e.substitute name filling).evaluate b = .ok result ∧
      e.evaluate (b.set name value) = .ok result := by
  have hset : ∀ value, ∀ n ∈ e.vars, (b.set name value).contains n = true := by
    intro value n hn
    rw [Bindings.contains_set]
    by_cases hname : n = name
    · exact Or.inl hname
    · refine Or.inr (hb n ?_)
      rw [vars_substitute, NameSet.mem_union, NameSet.mem_filter]
      exact Or.inl ⟨hn, by simpa using hname⟩
  refine ⟨_, _, evaluate_of_contains hfilling, evaluate_of_contains hb, ?_⟩
  rw [evaluate_of_contains (hset _), truth_substitute]
  congr 2
  funext n
  rw [Bindings.find?_set]
  split
  · rfl
  · rfl

end Expr

namespace Token

def shape (t : Token) : Kind × String := (t.kind, t.text)

theorem kind_eq_of_shape {t u : Token} (h : t.shape = u.shape) : t.kind = u.kind :=
  congrArg Prod.fst h

theorem upToLiterals_of_shape {t u : Token} (h : u.shape = t.shape) : t.UpToLiterals Eq u where
  literal := fun value ht => ⟨value, (kind_eq_of_shape h).trans ht, rfl⟩
  kind_eq := fun _ => kind_eq_of_shape h
  text_eq := fun _ => congrArg Prod.snd h

end Token

namespace Grammar.Derivation

variable {l : Level}

/-- Tokens that differ from those of a derivation in their positions only have the same
derivation. -/
theorem exists_of_shapes (d : Derivation l) {tokens : List Token}
    (h : tokens.map Token.shape = d.yield.map Token.shape) :
    ∃ d' : Derivation l, d'.yield = tokens ∧ d'.tree = d.tree ∧ d'.depth = d.depth := by
  have hsame : List.Forall₂ (Token.UpToLiterals Eq) d.yield tokens := by
    rw [← List.forall₂_eq_eq_eq, List.forall₂_map_left_iff, List.forall₂_map_right_iff] at h
    exact h.flip.imp fun _ _ => Token.upToLiterals_of_shape
  obtain ⟨d', hyield, htree, hdepth⟩ := d.exists_of_upToLiterals hsame
  exact ⟨d', hyield, htree.eq.symm, hdepth⟩

def substitute : {l : Level} → Derivation l → String → Derivation .operand → Derivation l
  | _, .literal t value ht, _, _ => .literal t value ht
  | _, .var t ht, name, filling => if t.text = name then filling else .var t ht
  | _, .group left hleft body right hright, name, filling =>
    .group left hleft (body.substitute name filling) right hright
  | _, .single first, name, filling => .single (first.substitute name filling)
  | _, .join front t ht last, name, filling =>
    .join (front.substitute name filling) t ht (last.substitute name filling)

theorem yield_substitute (d : Derivation l) (name : String) (filling : Derivation .operand) :
    (d.substitute name filling).yield =
      d.yield.flatMap fun t => if t.kind = .var ∧ t.text = name then filling.yield else [t] := by
  induction d with
  | literal t value ht => simp [substitute, yield, ht]
  | var t ht =>
    rw [substitute, yield, List.flatMap_singleton]
    by_cases hname : t.text = name
    · rw [if_pos hname, if_pos ⟨ht, hname⟩]
    · rw [if_neg hname, if_neg fun h => hname h.2]
      rfl
  | group left hleft body right hright ih => simp [substitute, yield, hleft, hright, ih]
  | single first ih => exact ih
  | join front t ht last ihf ihl => simp [substitute, yield, ht, ihf, ihl]

theorem tree_substitute (d : Derivation l) (name : String) (filling : Derivation .operand) :
    (d.substitute name filling).tree = d.tree.substitute name filling.tree := by
  induction d with
  | literal t value ht => rfl
  | var t ht =>
    rw [substitute, tree, Expr.substitute]
    split
    · rfl
    · rfl
  | group left hleft body right hright ih => exact ih
  | single first ih => exact ih
  | join front t ht last ihf ihl => rw [substitute, tree, tree, Expr.substitute, ihf, ihl]

/-- No more parentheses are nested than those around an occurrence and those of the operand. -/
theorem depth_substitute_le (d : Derivation l) (name : String) (filling : Derivation .operand) :
    (d.substitute name filling).depth ≤ d.depth + filling.depth := by
  induction d with
  | literal t value ht => exact Nat.zero_le _
  | var t ht =>
    rw [substitute]
    split
    · exact Nat.le_add_left _ _
    · exact Nat.zero_le _
  | group left hleft body right hright ih =>
    rw [substitute, depth, depth]
    omega
  | single first ih => exact ih
  | join front t ht last ihf ihl =>
    rw [substitute, depth, depth]
    omega

def enclosed (d : Derivation expression) : Derivation .operand :=
  .group ⟨.opening, 0, "("⟩ rfl d ⟨.closing, 0, ")"⟩ rfl

end Grammar.Derivation

end BoolExpr
