import BoolExpr.Proofs.Spelling
import BoolExpr.Proofs.StackWalks

/-!
Tables in the order of the text. A walk in order from a row meets what is below its left reference,
the row itself, and what is below its right reference. In the table of a tree the walk from the
first row meets each row once; and since a derivation has its operators between what they join, the
rows of an expression that was read come in the order of its tokens. The main statement puts the
table and the variables of a parse document next to the tokens of the text.
-/
namespace BoolExpr

namespace Symbol

def isOperator : Symbol → Bool
  | .operator _ => true
  | _ => false

end Symbol

namespace Token

def isOperator (t : Token) : Bool :=
  match t.kind with
  | .operator _ => true
  | _ => false

/-- What a token is in a tree. Parentheses and the end mark are nothing there. -/
def symbol? (t : Token) : Option Symbol :=
  match t.kind with
  | .literal value => some (.literal value)
  | .var => some (.var t.text)
  | .operator op => some (.operator op)
  | _ => none

theorem countP_isOperator (tokens : List Token) :
    tokens.countP isOperator = (tokens.filterMap symbol?).countP Symbol.isOperator := by
  rw [List.countP_filterMap]
  refine List.countP_congr fun t _ => ?_
  cases ht : t.kind <;> simp [isOperator, symbol?, Symbol.isOperator, ht]

end Token

namespace Node

def symbol : Node → Symbol
  | .literal value => .literal value
  | .var name => .var name
  | .binary op _ _ => .operator op

/-- The rows, with their numbers, that a walk in order from a row meets. -/
inductive Walk (rows : List Node) : Nat → List (Nat × Node) → Prop
  | leaf {i : Nat} {row : Node} (hrow : rows[i]? = some row)
      (hleft : row.reference? .left = none) (hright : row.reference? .right = none) :
      Walk rows i [(i, row)]
  | inner {i left right : Nat} {row : Node} {before after : List (Nat × Node)}
      (hrow : rows[i]? = some row) (hleft : row.reference? .left = some left)
      (hright : row.reference? .right = some right) (hbefore : Walk rows left before)
      (hafter : Walk rows right after) : Walk rows i (before ++ (i, row) :: after)

variable {rows : List Node} {i : Nat} {visited visited' : List (Nat × Node)}

/-- From a row there is one walk at most. -/
theorem Walk.unique (h : Walk rows i visited) (h' : Walk rows i visited') : visited = visited' := by
  induction h generalizing visited' with
  | leaf hrow hleft hright =>
    cases h' with
    | leaf hrow' hleft' hright' =>
      obtain rfl := Option.some.inj (hrow.symm.trans hrow')
      rfl
    | inner hrow' hleft' hright' hbefore' hafter' =>
      obtain rfl := Option.some.inj (hrow.symm.trans hrow')
      cases hleft.symm.trans hleft'
  | inner hrow hleft hright hbefore hafter ihb iha =>
    cases h' with
    | leaf hrow' hleft' hright' =>
      obtain rfl := Option.some.inj (hrow.symm.trans hrow')
      cases hleft.symm.trans hleft'
    | inner hrow' hleft' hright' hbefore' hafter' =>
      obtain rfl := Option.some.inj (hrow.symm.trans hrow')
      obtain rfl := Option.some.inj (hleft.symm.trans hleft')
      obtain rfl := Option.some.inj (hright.symm.trans hright')
      rw [ihb hbefore', iha hafter']

end Node

namespace Expr

def inOrderFrom (start : Nat) : Expr → List (Nat × Node)
  | .literal value => [(start, .literal value)]
  | .var name => [(start, .var name)]
  | .binary op left right =>
    left.inOrderFrom (start + 1) ++
      (start, .binary op (start + 1) (start + 1 + left.size)) ::
        right.inOrderFrom (start + 1 + left.size)

def symbols : Expr → List Symbol
  | .literal value => [.literal value]
  | .var name => [.var name]
  | .binary op left right => left.symbols ++ .operator op :: right.symbols

/-- A walk in the table of a tree meets the rows of the subtree at its place in preorder. -/
theorem walk_flatten {e sub : Expr} {i : Nat} (h : e.preorder[i]? = some sub) :
    Node.Walk e.flatten i (sub.inOrderFrom i) := by
  induction sub generalizing i with
  | literal value => exact .leaf (by rw [getElem?_flatten, h]; rfl) rfl rfl
  | var name => exact .leaf (by rw [getElem?_flatten, h]; rfl) rfl rfl
  | binary op left right ihl ihr =>
    obtain ⟨hrow, hleft, hright⟩ := getElem?_flatten_operands h
    exact .inner hrow rfl rfl (ihl hleft) (ihr hright)

/-- In order, the rows of a tree have the numbers from that of the root on. -/
theorem map_fst_inOrderFrom_perm (start : Nat) (e : Expr) :
    ((e.inOrderFrom start).map Prod.fst).Perm (List.range' start e.size) := by
  induction e generalizing start with
  | literal value => exact .refl _
  | var name => exact .refl _
  | binary op left right ihl ihr =>
    have hrange : List.range' start (1 + left.size + right.size) =
        start :: (List.range' (start + 1) left.size ++
          List.range' (start + 1 + left.size) right.size) := by
      rw [List.range'_append_1, Nat.add_assoc, Nat.add_comm 1]
      rfl
    rw [inOrderFrom, size, hrange, List.map_append, List.map_cons]
    exact List.perm_middle.trans (((ihl _).append (ihr _)).cons start)

theorem map_symbol_inOrderFrom (start : Nat) (e : Expr) :
    (e.inOrderFrom start).map (fun visit => visit.2.symbol) = e.symbols := by
  induction e generalizing start with
  | literal value => rfl
  | var name => rfl
  | binary op left right ihl ihr =>
    rw [inOrderFrom, List.map_append, List.map_cons, ihl, ihr, symbols]
    rfl

theorem length_symbols (e : Expr) : e.symbols.length = e.size := by
  induction e with
  | literal value => rfl
  | var name => rfl
  | binary op left right ihl ihr =>
    rw [symbols, List.length_append, List.length_cons, ihl, ihr, size]
    omega

/-- A tree has one leaf more than it has operators. -/
theorem size_eq (e : Expr) : e.size = 2 * e.symbols.countP Symbol.isOperator + 1 := by
  induction e with
  | literal value => rfl
  | var name => rfl
  | binary op left right ihl ihr =>
    rw [symbols, List.countP_append, List.countP_cons_of_pos rfl, size, ihl, ihr]
    omega

end Expr

namespace Grammar.Derivation

/-- The symbols of the tree come in the order of the tokens. -/
theorem symbols_tree {l : Level} (d : Derivation l) :
    d.tree.symbols = d.yield.filterMap Token.symbol? := by
  induction d with
  | literal t value ht => simp [tree, yield, Expr.symbols, Token.symbol?, ht]
  | var t ht => simp [tree, yield, Expr.symbols, Token.symbol?, ht]
  | group left hleft body right hright ih =>
    simp [tree, yield, Token.symbol?, hleft, hright, ih]
  | single first ih => exact ih
  | join front t ht last ihf ihl => simp [tree, yield, Expr.symbols, Token.symbol?, ht, ihf, ihl]

end Grammar.Derivation

namespace Engine

variable {engine : Engine} {source : String} {e : Expr}

/-- A text that is read has the symbols of its tree for tokens, besides parentheses and the end
mark. -/
theorem exists_tokens_of_parse (h : engine.parse source = .ok e) :
    ∃ tokens, Token.lex source = .ok tokens ∧
      e.symbols = tokens.filterMap Token.symbol? ∧
      e.names = (tokens.filter fun t => t.kind = .var).map Token.text := by
  obtain ⟨depth, -, ⟨tokens, hlexes, d, hyield, rfl, -⟩⟩ := exists_spelling_of_parse h
  have hend := hlexes.eq_body_append
  rw [← hyield] at hend
  refine ⟨tokens, Token.lexFrom_of_lexes hlexes, ?_, ?_⟩
  · rw [d.symbols_tree, hend, List.filterMap_append]
    simp [Token.symbol?]
  · rw [d.names_tree, hend, List.filter_append]
    simp

/-- The parse document reflects the text. In the table of the tree that is read, the walk in order
from the first row is the only one; it meets each row once, and the literals, variables and
operators that it meets are those of the text, in the order of the text. So there are as many rows
as such tokens, which is one more than twice the number of operators. The variables are collected
into a strictly increasing list of the names that variables of the text have. -/
theorem parse_in_order (h : engine.parse source = .ok e) :
    ∃ tokens visited, Token.lex source = .ok tokens ∧
      e.flattenByStack = some e.flatten ∧
      Node.Walk e.flatten 0 visited ∧
      (∀ other, Node.Walk e.flatten 0 other → other = visited) ∧
      (visited.map Prod.fst).Perm (List.range e.flatten.length) ∧
      visited.map (fun visit => visit.2.symbol) = tokens.filterMap Token.symbol? ∧
      e.flatten.length = (tokens.filterMap Token.symbol?).length ∧
      e.flatten.length = 2 * tokens.countP Token.isOperator + 1 ∧
      Expr.collectFrom [e] .empty = e.vars ∧
      e.vars.toList.Pairwise (· < ·) ∧
      ∀ name, name ∈ e.vars.toList ↔ ∃ t ∈ tokens, t.kind = .var ∧ t.text = name := by
  obtain ⟨tokens, hlex, hsymbols, hnames⟩ := exists_tokens_of_parse h
  have hwalk : Node.Walk e.flatten 0 (e.inOrderFrom 0) :=
    Expr.walk_flatten e.getElem?_preorder_zero
  refine ⟨tokens, e.inOrderFrom 0, hlex, e.flattenByStack_eq, hwalk,
    fun other hother => hother.unique hwalk, ?_, ?_, ?_, ?_, e.collectFrom_eq_vars,
    e.vars.increasing, fun name => ?_⟩
  · rw [e.length_flatten, List.range_eq_range']
    exact e.map_fst_inOrderFrom_perm 0
  · rw [e.map_symbol_inOrderFrom, hsymbols]
  · rw [e.length_flatten, ← hsymbols, e.length_symbols]
  · rw [e.length_flatten, Token.countP_isOperator, ← hsymbols]
    exact e.size_eq
  · rw [← NameSet.mem_def, Expr.mem_vars, hnames]
    simp [and_assoc]

/-- Parentheses that leave no trace, and a variable in two spellings. -/
theorem parse_in_order_of_groups :
    let e := Expr.binary .or (.binary .and (.var "b") (.var "a")) (.var "a")
    standard.parse "(b AND A) OR (a)" = .ok e ∧
      ∃ tokens visited, Token.lex "(b AND A) OR (a)" = .ok tokens ∧
        Node.Walk e.flatten 0 visited ∧ visited.map Prod.fst = [2, 1, 3, 0, 4] ∧
        visited.map (fun visit => visit.2.symbol) = tokens.filterMap Token.symbol? ∧
        e.flatten.length = 5 ∧ tokens.countP Token.isOperator = 2 ∧ e.vars.toList = ["a", "b"] := by
  intro e
  have hparse : standard.parse "(b AND A) OR (a)" = .ok e := by with_unfolding_all rfl
  obtain ⟨tokens, visited, hlex, -, hwalk, -, -, hsymbols, -, hrows, -⟩ := parse_in_order hparse
  have hmeets : visited = e.inOrderFrom 0 := hwalk.unique (Expr.walk_flatten rfl)
  have hlength : e.flatten.length = 5 := rfl
  exact ⟨hparse, tokens, visited, hlex, hwalk, by rw [hmeets]; rfl, hsymbols, hlength, by omega,
    by decide⟩

end Engine

end BoolExpr
