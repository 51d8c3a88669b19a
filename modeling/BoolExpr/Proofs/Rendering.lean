import BoolExpr.Proofs.Spelling

/-!
Expressions as text. An expression is written with as few parentheses as its tree admits; a layout
adds further pairs around operands and around the whole. All of these texts are read as the
expression again, as far as the limit on nesting admits them. No text with less nesting is read as
that expression, so the expressions that can be read at all are those whose rendering can be.
-/
namespace BoolExpr

def enclose : Nat → String → String
  | 0, s => s
  | pairs + 1, s => "(" ++ enclose pairs s ++ ")"

/-- A left operand needs parentheses where it is a disjunction under AND. -/
def leftPairs : Op → Expr → Nat
  | .and, .binary .or _ _ => 1
  | _, _ => 0

/-- A right operand needs parentheses under AND where it has an operator at all, and under OR where
it is a disjunction, since chains are joined from the left. -/
def rightPairs : Op → Expr → Nat
  | .and, .binary _ _ _ => 1
  | .or, .binary .or _ _ => 1
  | _, _ => 0

namespace Expr

def render : Expr → String
  | .literal value => if value then "1" else "0"
  | .var name => name
  | .binary op left right =>
    enclose (leftPairs op left) left.render ++ " " ++ op.word ++ " " ++
      enclose (rightPairs op right) right.render

def need : Expr → Nat
  | .literal _ => 0
  | .var _ => 0
  | .binary op left right =>
    max (left.need + leftPairs op left) (right.need + rightPairs op right)

end Expr

/-- An expression with a number of redundant pairs of parentheses around each operand and around the
whole. -/
inductive Layout where
  | literal (pairs : Nat) (value : Bool)
  | var (pairs : Nat) (name : String)
  | binary (pairs : Nat) (op : Op) (left right : Layout)

namespace Layout

def expr : Layout → Expr
  | .literal _ value => .literal value
  | .var _ name => .var name
  | .binary _ op left right => .binary op left.expr right.expr

def text : Layout → String
  | .literal pairs value => enclose pairs (if value then "1" else "0")
  | .var pairs name => enclose pairs name
  | .binary pairs op left right =>
    enclose pairs (enclose (leftPairs op left.expr) left.text ++ " " ++ op.word ++ " " ++
      enclose (rightPairs op right.expr) right.text)

def depth : Layout → Nat
  | .literal pairs _ => pairs
  | .var pairs _ => pairs
  | .binary pairs op left right =>
    max (left.depth + leftPairs op left.expr) (right.depth + rightPairs op right.expr) + pairs

def plain : Expr → Layout
  | .literal value => .literal 0 value
  | .var name => .var 0 name
  | .binary op left right => .binary 0 op (plain left) (plain right)

@[simp]
theorem expr_plain (e : Expr) : (plain e).expr = e := by
  induction e with
  | literal value => rfl
  | var name => rfl
  | binary op left right ihl ihr => rw [plain, expr, ihl, ihr]

@[simp]
theorem text_plain (e : Expr) : (plain e).text = e.render := by
  induction e with
  | literal value => rfl
  | var name => rfl
  | binary op left right ihl ihr =>
    rw [plain, text, expr_plain, expr_plain, ihl, ihr]
    rfl

@[simp]
theorem depth_plain (e : Expr) : (plain e).depth = e.need := by
  induction e with
  | literal value => rfl
  | var name => rfl
  | binary op left right ihl ihr =>
    rw [plain, depth, expr_plain, expr_plain, ihl, ihr]
    rfl

end Layout

namespace Grammar

variable {l : Level} {op : Op} {s : String} {e : Expr} {depth : Nat}

def levelOf : Expr → Level
  | .binary op _ _ => .chain op
  | _ => .operand

def pairsAt (l : Level) : Expr → Nat
  | .binary op _ _ =>
    match l, op with
    | .operand, _ => 1
    | .chain .and, .or => 1
    | _, _ => 0
  | _ => 0

theorem leftPairs_eq (op : Op) (e : Expr) : leftPairs op e = pairsAt (.chain op) e := by
  cases op with
  | or => cases e <;> rfl
  | and =>
    match e with
    | .literal _ | .var _ | .binary .and _ _ | .binary .or _ _ => rfl

theorem rightPairs_eq (op : Op) (e : Expr) : rightPairs op e = pairsAt (below op) e := by
  cases op with
  | and => cases e <;> rfl
  | or =>
    match e with
    | .literal _ | .var _ | .binary .and _ _ | .binary .or _ _ => rfl

theorem pairsAt_operand_le (e : Expr) : pairsAt .operand e ≤ 1 := by
  cases e <;> simp [pairsAt]

theorem pairsAt_whole (e : Expr) : pairsAt expression e = 0 := by
  cases e <;> rfl

theorem pairsAt_chain_le (op : Op) (e : Expr) : pairsAt (.chain op) e ≤ pairsAt (below op) e := by
  cases op with
  | or =>
    rw [pairsAt_whole]
    exact Nat.zero_le _
  | and =>
    match e with
    | .literal _ | .var _ | .binary .and _ _ | .binary .or _ _ => simp [pairsAt, below]

theorem pairsAt_self (op : Op) (left right : Expr) :
    pairsAt (.chain op) (.binary op left right) = 0 := by
  cases op <;> rfl

/-- No derivation of a tree nests parentheses less than the rendering. -/
theorem need_add_pairsAt_le_depth (d : Derivation l) :
    d.tree.need + pairsAt l d.tree ≤ d.depth := by
  induction d with
  | literal t value ht => exact Nat.le_refl 0
  | var t ht => exact Nat.le_refl 0
  | group left hleft body right hright ih =>
    have hpairs := pairsAt_operand_le body.tree
    rw [Derivation.tree, Derivation.depth]
    omega
  | @single op first ih =>
    have hpairs := pairsAt_chain_le op first.tree
    rw [Derivation.tree, Derivation.depth]
    omega
  | @join op front t ht last ihf ihl =>
    rw [Derivation.tree, Derivation.depth, Expr.need, leftPairs_eq, rightPairs_eq, pairsAt_self]
    omega

namespace Spells

/-- Parentheses do not change what a text spells, and with or without them it may stand where the
tree stands without. -/
theorem enclose_self (h : Spells (levelOf e) s e depth) (pairs : Nat) :
    Spells (levelOf e) (enclose pairs s) e (depth + pairs) := by
  induction pairs with
  | zero => exact h
  | succ pairs ih => exact ih.whole.group.of_operand (levelOf e)

/-- With the pairs of parentheses that it needs there, a tree may stand in any place. -/
theorem enclose_pairsAt (h : Spells (levelOf e) s e depth) (l : Level) :
    Spells l (enclose (pairsAt l e) s) e (depth + pairsAt l e) := by
  cases e with
  | literal value => exact h.of_operand l
  | var name => exact h.of_operand l
  | binary op left right =>
    match l, op with
    | .operand, _ => exact h.whole.group
    | .chain .and, .or => exact h.group.of_operand (.chain .and)
    | .chain .and, .and => exact h
    | .chain .or, _ => exact h.whole

end Spells

end Grammar

open Grammar

/-- Every layout spells its expression. -/
theorem Layout.spells (x : Layout) (h : ∀ name ∈ x.expr.names, Token.IsName name) :
    Spells (levelOf x.expr) x.text x.expr x.depth := by
  induction x with
  | literal pairs value =>
    have hbody : Spells (levelOf (.literal value)) _ _ 0 := Spells.literal value
    simpa [text, expr, depth] using hbody.enclose_self pairs
  | var pairs name =>
    have hbody : Spells (levelOf (.var name)) _ _ 0 :=
      Spells.name (h name (by simp [expr, Expr.names]))
    simpa [text, expr, depth] using hbody.enclose_self pairs
  | binary pairs op left right ihl ihr =>
    have hleft := ihl fun name hname => h name (by simp [expr, Expr.names, hname])
    have hright := ihr fun name hname => h name (by simp [expr, Expr.names, hname])
    have hbody := (hleft.enclose_pairsAt (.chain op)).join (hright.enclose_pairsAt (below op))
    rw [← leftPairs_eq, ← rightPairs_eq] at hbody
    exact Spells.enclose_self (e := .binary op left.expr right.expr) hbody pairs

namespace Expr

variable {limit : NestingLimit} {source : String} {e : Expr}

theorem spells_render (h : ∀ name ∈ e.names, Token.IsName name) :
    Spells Grammar.expression e.render e e.need := by
  have hplain := (Layout.plain e).spells (by simpa using h)
  simpa using hplain.whole

/-- What is read from a text has names of the kind that words have, and the text nests its
parentheses at least as deep as the rendering. -/
theorem names_and_need_of_read (h : read limit.value source = .ok e) :
    (∀ name ∈ e.names, Token.IsName name) ∧ e.need ≤ limit.value := by
  obtain ⟨depth, hdepth, ⟨x⟩⟩ := exists_spelling_of_read h
  constructor
  · intro name hname
    rw [← x.tree_eq, x.derivation.names_tree, x.yield_eq, List.mem_map] at hname
    obtain ⟨t, ht, rfl⟩ := hname
    obtain ⟨hbody, hvar⟩ := List.mem_filter.mp ht
    exact x.lexes.isName t ((List.takeWhile_sublist _).mem hbody) (by simpa using hvar)
  · have hneed := need_add_pairsAt_le_depth x.derivation
    rw [x.tree_eq, x.depth_eq] at hneed
    omega

/-- Rendering and reading are inverse. An expression with proper names is read back from its
rendering, and from every text with redundant parentheses, if the limit admits the nesting of the
text. If the limit does not admit the rendering, that is why the rendering is refused, and no text
is read as the expression. Whatever is read has proper names and a rendering that is read under the
same limit. -/
theorem read_render (limit : NestingLimit) :
    (∀ e : Expr, (∀ name ∈ e.names, Token.IsName name) →
      (nesting e.render ≤ limit.value → read limit.value e.render = .ok e) ∧
      (∀ x : Layout, x.expr = e → nesting x.text ≤ limit.value →
        read limit.value x.text = .ok e) ∧
      (limit.value < nesting e.render →
        (∃ p, read limit.value e.render =
          .error (.refused (.malformed (.nestingTooDeep p limit.value)))) ∧
        ∀ source, read limit.value source ≠ .ok e)) ∧
    ∀ source e, read limit.value source = .ok e →
      (∀ name ∈ e.names, Token.IsName name) ∧ nesting e.render ≤ limit.value ∧
        read limit.value e.render = .ok e := by
  constructor
  · intro e hnames
    have hrender := spells_render hnames
    rw [hrender.nesting_eq]
    refine ⟨read_of_spells hrender, ?_, fun hdeep => ⟨read_tooDeep_of_spells hrender hdeep, ?_⟩⟩
    · rintro x rfl hdepth
      have hlayout := (x.spells hnames).whole
      rw [hlayout.nesting_eq] at hdepth
      exact read_of_spells hlayout hdepth
    · intro source hread
      have hneed := (names_and_need_of_read hread).2
      omega
  · intro source e hread
    obtain ⟨hnames, hneed⟩ := names_and_need_of_read hread
    have hrender := spells_render hnames
    exact ⟨hnames, by rwa [hrender.nesting_eq], read_of_spells hrender hneed⟩

example : (binary .or (.var "or") (.binary .or (.var "b") (.literal true))).render =
    "or OR (b OR 1)" := by decide

end Expr

end BoolExpr
