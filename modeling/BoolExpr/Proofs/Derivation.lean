import BoolExpr.Proofs.Nesting

/-!
Derivations of expressions. A chain of an operator is an operand of the next level and, any number
of times, the operator with one more operand after it; disjunctions are chains of OR over
conjunctions, which are chains of AND over literals, variables and disjunctions in parentheses. A
derivation tree yields the tokens that it derives, and stands for an expression tree. The main
statement is that no tokens have two derivations: operators outside all parentheses cut a chain
into its operands, and so the tokens determine the tree.
-/
namespace BoolExpr.Grammar

/-- What may stand in a place: an operand, or a chain of operands joined by an operator. -/
inductive Level where
  | operand
  | chain (op : Op)

def below : Op → Level
  | .or => .chain .and
  | .and => .operand

abbrev expression : Level := .chain .or

/-- Derivation trees. A chain begins with one operand; each further operand comes with the operator
before it, and is added to the chain so far. -/
inductive Derivation : Level → Type
  | literal (t : Token) (value : Bool) (ht : t.kind = .literal value) : Derivation .operand
  | var (t : Token) (ht : t.kind = .var) : Derivation .operand
  | group (left : Token) (hleft : left.kind = .opening) (body : Derivation expression)
      (right : Token) (hright : right.kind = .closing) : Derivation .operand
  | single {op : Op} (first : Derivation (below op)) : Derivation (.chain op)
  | join {op : Op} (front : Derivation (.chain op)) (t : Token) (ht : t.kind = .operator op)
      (last : Derivation (below op)) : Derivation (.chain op)

namespace Derivation

def yield : {l : Level} → Derivation l → List Token
  | _, .literal t _ _ => [t]
  | _, .var t _ => [t]
  | _, .group left _ body right _ => left :: (body.yield ++ [right])
  | _, .single first => first.yield
  | _, .join front t _ last => front.yield ++ t :: last.yield

/-- The expression tree: chains are joined from the left, and parentheses leave no node. -/
def tree : {l : Level} → Derivation l → Expr
  | _, .literal _ value _ => .literal value
  | _, .var t _ => .var t.text
  | _, .group _ _ body _ _ => body.tree
  | _, .single first => first.tree
  | _, @join op front _ _ last => .binary op front.tree last.tree

def depth : {l : Level} → Derivation l → Nat
  | _, .literal _ _ _ => 0
  | _, .var _ _ => 0
  | _, .group _ _ body _ _ => body.depth + 1
  | _, .single first => first.depth
  | _, .join front _ _ last => max front.depth last.depth

end Derivation

namespace Derivation

variable {l : Level} {op : Op} {n : Nat}

theorem brackets_literal {t : Token} {value : Bool} (ht : t.kind = .literal value) :
    Token.brackets [t] = [] := Token.brackets_other (by simp [ht]) (by simp [ht]) []

theorem brackets_var {t : Token} (ht : t.kind = .var) : Token.brackets [t] = [] :=
  Token.brackets_other (by simp [ht]) (by simp [ht]) []

theorem brackets_group {left right : Token} (hleft : left.kind = .opening)
    (hright : right.kind = .closing) (tokens : List Token) :
    Token.brackets (left :: (tokens ++ [right])) =
      .opening :: (Token.brackets tokens ++ [.closing]) := by
  rw [Token.brackets_opening hleft, Token.brackets_append, Token.brackets_closing hright]
  rfl

theorem brackets_join {t : Token} (ht : t.kind = .operator op) (xs ys : List Token) :
    Token.brackets (xs ++ t :: ys) = Token.brackets xs ++ Token.brackets ys := by
  rw [Token.brackets_append, Token.brackets_other (by simp [ht]) (by simp [ht])]

/-- Parentheses are balanced in what is derived. -/
theorem levelAfter_yield (d : Derivation l) : Token.levelAfter n d.yield = n := by
  unfold Token.levelAfter
  induction d generalizing n with
  | literal t value ht => rw [yield, brackets_literal ht]; rfl
  | var t ht => rw [yield, brackets_var ht]; rfl
  | group left hleft body right hright ih =>
    rw [yield, brackets_group hleft hright]
    change Bracket.levelAfter (n + 1) _ = n
    rw [Bracket.levelAfter_append, ih]
    rfl
  | single first ih => exact ih
  | join front t ht last ihf ihl =>
    rw [yield, brackets_join ht, Bracket.levelAfter_append, ihf, ihl]

/-- The depth of a derivation is the largest number of parentheses open at once. -/
theorem deepest_yield (d : Derivation l) :
    Bracket.deepest n (Token.brackets d.yield) = n + d.depth := by
  induction d generalizing n with
  | literal t value ht => rw [yield, brackets_literal ht]; rfl
  | var t ht => rw [yield, brackets_var ht]; rfl
  | group left hleft body right hright ih =>
    have hlevel : Bracket.levelAfter (n + 1) (Token.brackets body.yield) = n + 1 :=
      levelAfter_yield body
    rw [yield, brackets_group hleft hright, Bracket.deepest, Bracket.after, Bracket.deepest_append,
      ih, hlevel]
    simp only [Bracket.deepest, Bracket.after, depth]
    omega
  | single first ih => exact ih
  | join front t ht last ihf ihl =>
    have hlevel : Bracket.levelAfter n (Token.brackets front.yield) = n := levelAfter_yield front
    rw [yield, brackets_join ht, Bracket.deepest_append, ihf, hlevel, ihl, depth]
    omega

/-- The names at the leaves of the tree are the variables among the tokens, in the same order. -/
theorem names_tree (d : Derivation l) :
    d.tree.names = (d.yield.filter fun t => t.kind = .var).map Token.text := by
  induction d with
  | literal t value ht => simp [tree, yield, Expr.names, ht]
  | var t ht => simp [tree, yield, Expr.names, ht]
  | group left hleft body right hright ih => simp [tree, yield, hleft, hright, ih]
  | single first ih => exact ih
  | join front t ht last ihf ihl => simp [tree, yield, Expr.names, ht, ihf, ihl]

end Derivation

/-- The operators that may stand outside all parentheses. -/
def Level.Admits : Level → Op → Prop
  | .operand, _ => False
  | .chain .and, op => op = .and
  | .chain .or, _ => True

theorem admits_chain (op : Op) : (Level.chain op).Admits op := by
  cases op with
  | and => rfl
  | or => trivial

theorem not_admits_below (op : Op) : ¬(below op).Admits op := by
  cases op with
  | and => exact id
  | or => exact nofun

theorem admits_of_below {op o : Op} (h : (below op).Admits o) : (Level.chain op).Admits o := by
  cases op with
  | and => exact absurd h id
  | or => trivial

namespace Derivation

variable {l : Level} {op o : Op} {n : Nat}

/-- Tokens that have a derivation stay in one piece, except at operators of their own level. -/
theorem segments_yield (d : Derivation l) (h : n = 0 → ¬l.Admits o) (rest : List Token) :
    Token.segments o n (d.yield ++ rest) =
      (Token.segments o n rest).modifyHead (d.yield ++ ·) := by
  induction d generalizing n rest with
  | literal t value ht =>
    have hlevel := levelAfter_yield (n := n) (.literal t value ht)
    rw [yield] at hlevel ⊢
    rw [List.singleton_append, Token.segments_keep (by simp [ht]), hlevel]
    rfl
  | var t ht =>
    have hlevel := levelAfter_yield (n := n) (.var t ht)
    rw [yield] at hlevel ⊢
    rw [List.singleton_append, Token.segments_keep (by simp [ht]), hlevel]
    rfl
  | group left hleft body right hright ih =>
    have hopen : Token.levelAfter n [left] = n + 1 := by
      rw [Token.levelAfter, Token.brackets_opening hleft]
      rfl
    have hclose : Token.levelAfter (n + 1) [right] = n := by
      rw [Token.levelAfter, Token.brackets_closing hright]
      rfl
    rw [yield, List.cons_append, List.append_assoc, List.singleton_append,
      Token.segments_keep (by simp [hleft]), hopen, ih (fun h => absurd h (Nat.succ_ne_zero n)),
      Token.segments_keep (by simp [hright]), hclose, List.modifyHead_modifyHead,
      List.modifyHead_modifyHead]
    congr 1
    funext s
    simp
  | single first ih => exact ih (fun hn hadmits => h hn (admits_of_below hadmits)) rest
  | @join op front t ht last ihf ihl =>
    have hkeep : ¬(t.kind = .operator o ∧ n = 0) := by
      rintro ⟨hop, hn⟩
      obtain rfl : op = o := by simpa [ht] using hop
      exact h hn (admits_chain op)
    have hlevel : Token.levelAfter n [t] = n := by
      rw [Token.levelAfter, Token.brackets_other (by simp [ht]) (by simp [ht])]
      rfl
    rw [yield, List.append_assoc, List.cons_append, ihf h, Token.segments_keep hkeep, hlevel,
      ihl (fun hn hadmits => h hn (admits_of_below hadmits)), List.modifyHead_modifyHead,
      List.modifyHead_modifyHead]
    congr 1
    funext s
    simp

theorem segments_yield_self (d : Derivation l) (h : ¬l.Admits o) :
    Token.segments o 0 d.yield = [d.yield] := by
  have hsegments := segments_yield d (n := 0) (fun _ => h) []
  simpa [Token.segments] using hsegments

/-- The last operator of a chain cuts off its last operand. -/
theorem segments_join (front : Derivation (.chain op)) {t : Token} (ht : t.kind = .operator op)
    (last : Derivation (below op)) :
    Token.segments op 0 (front.yield ++ t :: last.yield) =
      Token.segments op 0 front.yield ++ [last.yield] := by
  rw [Token.segments_append_operator ht (levelAfter_yield front),
    segments_yield_self last (not_admits_below op)]

theorem single_ne_join (first : Derivation (below op)) (front : Derivation (.chain op)) {t : Token}
    (ht : t.kind = .operator op) (last : Derivation (below op)) :
    first.yield ≠ front.yield ++ t :: last.yield := by
  intro h
  have hsegments := congrArg List.length (congrArg (Token.segments op 0) h)
  have hfront := Token.length_segments_pos op 0 front.yield
  rw [segments_yield_self first (not_admits_below op), segments_join front ht last] at hsegments
  simp only [List.length_append, List.length_singleton] at hsegments
  omega

/-- No tokens have two derivations. -/
theorem yield_injective (d d' : Derivation l) (h : d.yield = d'.yield) : d = d' := by
  induction d with
  | literal t value ht =>
    cases d' with
    | literal t' value' ht' =>
      obtain rfl := List.singleton_inj.mp h
      obtain rfl : value = value' := by simpa [ht] using ht'
      rfl
    | var t' ht' =>
      obtain rfl := List.singleton_inj.mp h
      simp [ht] at ht'
    | group left hleft body right hright => simp [yield] at h
  | var t ht =>
    cases d' with
    | literal t' value' ht' =>
      obtain rfl := List.singleton_inj.mp h
      simp [ht] at ht'
    | var t' ht' =>
      obtain rfl := List.singleton_inj.mp h
      rfl
    | group left hleft body right hright => simp [yield] at h
  | group left hleft body right hright ih =>
    cases d' with
    | literal t' value' ht' => simp [yield] at h
    | var t' ht' => simp [yield] at h
    | group left' hleft' body' right' hright' =>
      obtain ⟨rfl, hrest⟩ := List.cons.inj h
      obtain ⟨hbody, hright⟩ := List.append_inj' hrest rfl
      obtain rfl := List.singleton_inj.mp hright
      obtain rfl := ih body' hbody
      rfl
  | single first ih =>
    cases d' with
    | single first' => rw [ih first' h]
    | join front t ht last => exact absurd h (single_ne_join first front ht last)
  | @join op front t ht last ihf ihl =>
    cases d' with
    | single first' => exact absurd h.symm (single_ne_join first' front ht last)
    | join front' t' ht' last' =>
      have hsegments := congrArg (Token.segments op 0) h
      simp only [yield] at hsegments h
      rw [segments_join front ht last, segments_join front' ht' last'] at hsegments
      have hlast : last.yield = last'.yield := by
        simpa using (List.append_inj' hsegments rfl).2
      rw [hlast] at h
      obtain ⟨hfront, hcons⟩ := List.append_inj' h rfl
      obtain ⟨rfl, -⟩ := List.cons.inj hcons
      rw [ihf front' hfront, ihl last' hlast]

end Derivation

end BoolExpr.Grammar
