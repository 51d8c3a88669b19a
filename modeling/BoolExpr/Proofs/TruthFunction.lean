import BoolExpr.Proofs.Substitution
import BoolExpr.Proofs.TokenValue
import BoolExpr.TruthTable

/-!
What an expression says, without its tree: the set of its variables, and for every assignment of
truth values to them the value that it has. Two expressions joined by an operator have the variables
of both, and the operator joins their values. Whatever is answered about an expression under some
bindings, and its truth table, can be told from this alone; and what a text says can be told from
its tokens, without reading a tree.
-/
namespace BoolExpr

namespace Op

theorem apply_comm (op : Op) (a b : Bool) : op.apply a b = op.apply b a := by
  cases op with
  | and => exact Bool.and_comm a b
  | or => exact Bool.or_comm a b

theorem apply_assoc (op : Op) (a b c : Bool) :
    op.apply (op.apply a b) c = op.apply a (op.apply b c) := by
  cases op with
  | and => exact Bool.and_assoc a b c
  | or => exact Bool.or_assoc a b c

end Op

structure TruthFunction where
  vars : NameSet
  value : ({ name : String // name ∈ vars } → Bool) → Bool

namespace TruthFunction

def valueUnder (f : TruthFunction) (b : String → Bool) : Bool := f.value fun name => b name

def extend {names : NameSet} (a : { name : String // name ∈ names } → Bool) (name : String) :
    Bool :=
  if h : name ∈ names then a ⟨name, h⟩ else false

def ofValues (names : NameSet) (value : (String → Bool) → Bool) : TruthFunction :=
  ⟨names, fun a => value (extend a)⟩

def ofExpr (e : Expr) : TruthFunction := ofValues e.vars e.truth

/-- What tokens say, the end mark and what is after it left out. -/
def ofTokens (tokens : List Token) : TruthFunction :=
  ofValues (Token.names (Token.body tokens)) fun b => Token.value b (Token.body tokens)

/-- What a text says. Whether it says anything is found by a scan of its tokens. -/
def ofText (engine : Engine) (source : String) : Except ExprError TruthFunction :=
  if engine.admits source.length then do
    let tokens ← (Token.lex source).mapError .lexical
    let verdict := Scan.conclude engine.nesting.value (Token.endPosition tokens) .start
      (Token.body tokens)
    (verdict.map fun _ => ofTokens tokens).mapError .malformed
  else .error (.tooLong source.length engine.maxLength)

def join (op : Op) (f g : TruthFunction) : TruthFunction :=
  ⟨f.vars.union g.vars, fun a =>
    let x := f.value fun name => a ⟨name, NameSet.mem_union.mpr (Or.inl name.2)⟩
    let y := g.value fun name => a ⟨name, NameSet.mem_union.mpr (Or.inr name.2)⟩
    match op with
    | .and => x && y
    | .or => x || y⟩

def missing (f : TruthFunction) (b : Bindings) : NameSet :=
  f.vars.filter fun name => !b.contains name

def evaluate (f : TruthFunction) (b : Bindings) : Except ExprError Bool :=
  if (f.missing b).isEmpty then .ok (f.valueUnder fun name => (b.find? name).getD false)
  else .error (.unboundVariables (f.missing b))

def bind (f : TruthFunction) (b : Bindings) : Except ExprError Bindings :=
  if (f.missing b).isEmpty then .ok (b.restrict f.vars)
  else .error (.unboundVariables (f.missing b))

def table (f : TruthFunction) : TruthTable :=
  ⟨f.vars, (TruthTable.assignments f.vars.toList).map fun row =>
    f.valueUnder fun name => (row.lookup name).getD false⟩

variable {f g : TruthFunction} {names : NameSet} {value : (String → Bool) → Bool}

/-- Functions with the same variables and the same values are equal. -/
theorem ext_valueUnder (hvars : f.vars = g.vars) (h : ∀ b, f.valueUnder b = g.valueUnder b) :
    f = g := by
  obtain ⟨vars, value⟩ := f
  obtain ⟨vars', value'⟩ := g
  obtain rfl : vars = vars' := hvars
  congr 1
  funext a
  have hsame : (fun name : { name : String // name ∈ vars } => extend a name) = a := by
    funext name
    simp [extend, name.2]
  have hvalue := h (extend a)
  unfold valueUnder at hvalue
  simpa only [hsame] using hvalue

/-- Values outside the variables do not matter if they did not matter before. -/
theorem valueUnder_ofValues
    (hlocal : ∀ b b' : String → Bool, (∀ name ∈ names, b name = b' name) → value b = value b')
    (b : String → Bool) : (ofValues names value).valueUnder b = value b := by
  apply hlocal
  intro name hname
  simp [extend, hname]

theorem valueUnder_join (op : Op) (f g : TruthFunction) (b : String → Bool) :
    (join op f g).valueUnder b = op.apply (f.valueUnder b) (g.valueUnder b) := by
  cases op with
  | and => rfl
  | or => rfl

/-- It does not matter on which side of an operator something is said. -/
theorem join_comm (op : Op) (f g : TruthFunction) : join op f g = join op g f := by
  apply ext_valueUnder
  · apply NameSet.ext
    intro name
    simp only [join, NameSet.mem_union]
    exact or_comm
  · intro b
    rw [valueUnder_join, valueUnder_join, Op.apply_comm]

/-- It does not matter how what is said is grouped between operators of one kind. -/
theorem join_assoc (op : Op) (f g h : TruthFunction) :
    join op (join op f g) h = join op f (join op g h) := by
  apply ext_valueUnder
  · apply NameSet.ext
    intro name
    simp only [join, NameSet.mem_union]
    exact or_assoc
  · intro b
    simp only [valueUnder_join, Op.apply_assoc]

end TruthFunction

namespace Expr

/-- The value of a tree depends on its names only. -/
theorem truth_congr {b b' : String → Bool} {e : Expr} (h : ∀ name ∈ e.names, b name = b' name) :
    e.truth b = e.truth b' := by
  induction e with
  | literal value => rfl
  | var name => exact h name (by simp [names])
  | binary op left right ihl ihr =>
    have hleft := ihl fun name hname => h name (by simp [names, hname])
    have hright := ihr fun name hname => h name (by simp [names, hname])
    rw [truth_binary, truth_binary, hleft, hright]

theorem vars_binary (op : Op) (left right : Expr) :
    (Expr.binary op left right).vars = left.vars.union right.vars := by
  apply NameSet.ext
  intro name
  rw [NameSet.mem_union, mem_vars, mem_vars, mem_vars, names, List.mem_append]

end Expr

namespace TruthFunction

variable {e : Expr} {b : Bindings}

theorem valueUnder_ofExpr (e : Expr) (b : String → Bool) : (ofExpr e).valueUnder b = e.truth b := by
  apply valueUnder_ofValues
  intro b b' h
  exact Expr.truth_congr fun name hname => h name (Expr.mem_vars.mpr hname)

/-- A tree made of two says what the two say, joined. -/
theorem ofExpr_binary (op : Op) (left right : Expr) :
    ofExpr (.binary op left right) = join op (ofExpr left) (ofExpr right) := by
  apply ext_valueUnder
  · exact Expr.vars_binary op left right
  · intro b
    rw [valueUnder_ofExpr, valueUnder_join, valueUnder_ofExpr, valueUnder_ofExpr,
      Expr.truth_binary]

/-- The tokens of a tree say what the tree says. -/
theorem ofTokens_eq_ofExpr {limit : NestingLimit} {tokens : List Token}
    (h : Expr.ofTokens limit tokens = .ok e) : ofTokens tokens = ofExpr e := by
  obtain ⟨d, hyield, htree, -⟩ := Grammar.exists_derivation_of_ofTokens h
  have hvars : Token.names (Token.body tokens) = e.vars := (Expr.vars_eq_names limit h).symm
  have hvalue : ∀ b, Token.value b (Token.body tokens) = e.truth b := by
    intro b
    rw [← hyield, d.value_yield, htree]
  unfold ofTokens ofExpr
  rw [hvars, funext hvalue]

/-- What a text says is what its tree says, and it says nothing for the reason that it has none. -/
theorem ofText_eq (engine : Engine) (source : String) :
    ofText engine source = (engine.parse source).map ofExpr := by
  unfold ofText Engine.parse
  split
  · cases Token.lex source with
    | error e => rfl
    | ok tokens =>
      show ((Scan.conclude engine.nesting.value (Token.endPosition tokens) .start
        (Token.body tokens)).map fun _ => ofTokens tokens).mapError _ =
          ((Expr.ofTokens engine.nesting tokens).mapError _).map ofExpr
      rw [Scan.conclude_ofTokens]
      cases hread : Expr.ofTokens engine.nesting tokens with
      | error e => rfl
      | ok e => exact congrArg Except.ok (ofTokens_eq_ofExpr hread)
  · rfl

theorem evaluate_ofExpr (e : Expr) (b : Bindings) : (ofExpr e).evaluate b = e.evaluate b := by
  rw [Expr.evaluate_eq, evaluate, valueUnder_ofExpr]
  rfl

theorem bind_ofExpr (e : Expr) (b : Bindings) :
    (ofExpr e).bind b = (e.bind b).map BoundExpr.bindings := by
  have hmissing : (ofExpr e).missing b = e.missing b := rfl
  unfold bind Expr.bind
  rw [hmissing]
  by_cases h : (e.missing b).isEmpty = true
  · rw [if_pos h, dif_pos h]
    rfl
  · rw [if_neg h, dif_neg h]
    rfl

end TruthFunction

namespace TruthTable

/-- An assignment to names gives each of them a value. -/
theorem isSome_lookup_of_mem_assignments {names : List String} {row : List (String × Bool)}
    (hrow : row ∈ assignments names) : ∀ name ∈ names, (row.lookup name).isSome = true := by
  induction names generalizing row with
  | nil => simp
  | cons first rest ih =>
    have hcons : ∃ value, ∃ more ∈ assignments rest, row = (first, value) :: more := by
      rcases List.mem_append.mp hrow with h | h
      · obtain ⟨more, hmore, rfl⟩ := List.mem_map.mp h
        exact ⟨false, more, hmore, rfl⟩
      · obtain ⟨more, hmore, rfl⟩ := List.mem_map.mp h
        exact ⟨true, more, hmore, rfl⟩
    obtain ⟨value, more, hmore, rfl⟩ := hcons
    intro name hname
    by_cases hfirst : name = first
    · simp [hfirst]
    · have hrest : name ∈ rest := by simpa [hfirst] using hname
      have hne : (name == first) = false := by simpa using hfirst
      rw [List.lookup_cons, hne]
      exact ih hmore name hrest

end TruthTable

namespace TruthFunction

/-- A tree has a truth table, and it is that of what the tree says. -/
theorem truthTable_eq (e : Expr) : e.truthTable = .ok (ofExpr e).table := by
  have hrow : ∀ row ∈ TruthTable.assignments e.vars.toList,
      e.evaluate (Bindings.ofList row) =
        .ok ((ofExpr e).valueUnder fun name => (row.lookup name).getD false) := by
    intro row hmem
    have hcontains : ∀ name ∈ e.vars, (Bindings.ofList row).contains name = true := by
      intro name hname
      rw [Bindings.contains, Bindings.find?_ofList]
      exact TruthTable.isSome_lookup_of_mem_assignments hmem name hname
    rw [Expr.evaluate_of_contains hcontains, valueUnder_ofExpr]
    simp only [Bindings.find?_ofList]
  rw [Expr.truthTable, Outcome.mapM_eq_ok_map hrow]
  rfl

end TruthFunction

end BoolExpr
