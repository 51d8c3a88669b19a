import BoolExpr.Proofs.Evaluation
import BoolExpr.Proofs.Grammar
import BoolExpr.Proofs.Lexing

/-!
Texts that spell an expression tree. A spelling is the tokens of a text together with a derivation
of those before the end mark, and spellings are put together as the grammar does it: in parentheses,
or with an operator between. A text that spells a tree is read as that tree, unless the limit does
not admit its parentheses, and every text that is read spells what is read.
-/
namespace BoolExpr

def nesting (source : String) : Nat := Bracket.deepest 0 (source.toList.filterMap Bracket.ofChar?)

namespace Token

theorem body_append (xs ys : List Token) : body (body xs ++ ys) = body xs ++ body ys := by
  unfold body
  exact List.takeWhile_append_of_pos fun t ht => List.all_eq_true.mp List.all_takeWhile t ht

theorem Lexes.brackets_body {p : Nat} {cs : List Char} {tokens : List Token}
    (h : Lexes p cs tokens) : brackets (body tokens) = cs.filterMap Bracket.ofChar? := by
  rw [← h.brackets_eq]
  conv => rhs; rw [h.eq_body_append]
  rw [brackets_append, brackets_other (by simp) (by simp)]
  simp [brackets]

end Token

namespace Grammar

/-- The tokens of a text that begins at position `p`, and how they derive the tree `e` with
parentheses nested `depth` deep. -/
structure Spelling (l : Level) (p : Nat) (s : String) (e : Expr) (depth : Nat) where
  tokens : List Token
  lexes : Token.Lexes p s.toList tokens
  derivation : Derivation l
  yield_eq : derivation.yield = Token.body tokens
  tree_eq : derivation.tree = e
  depth_eq : derivation.depth = depth

def Spells (l : Level) (s : String) (e : Expr) (depth : Nat) : Prop :=
  ∀ p, Nonempty (Spelling l p s e depth)

variable {l : Level} {op : Op} {s s' : String} {e e' : Expr} {depth depth' : Nat}

/-- The depth of a spelling can be seen in the text. -/
theorem Spelling.nesting_eq {p : Nat} (x : Spelling l p s e depth) : nesting s = depth := by
  rw [nesting, ← x.lexes.brackets_body, ← x.yield_eq, x.derivation.deepest_yield, Nat.zero_add,
    x.depth_eq]

/-- A text spells one tree, with parentheses of one depth. -/
theorem Spelling.unique {p : Nat} (x : Spelling l p s e depth) (y : Spelling l p s e' depth') :
    e = e' ∧ depth = depth' := by
  have htokens : x.tokens = y.tokens :=
    Except.ok.inj ((Token.lexFrom_of_lexes x.lexes).symm.trans (Token.lexFrom_of_lexes y.lexes))
  have hyield : x.derivation.yield = y.derivation.yield := by
    rw [x.yield_eq, y.yield_eq, htokens]
  have hsame : x.derivation = y.derivation := x.derivation.yield_injective y.derivation hyield
  constructor
  · exact x.tree_eq.symm.trans ((congrArg Derivation.tree hsame).trans y.tree_eq)
  · exact x.depth_eq.symm.trans ((congrArg Derivation.depth hsame).trans y.depth_eq)

namespace Spells

theorem nesting_eq (h : Spells l s e depth) : nesting s = depth := by
  obtain ⟨x⟩ := h 0
  exact x.nesting_eq

theorem literal (value : Bool) :
    Spells .operand (if value then "1" else "0") (.literal value) 0 := by
  intro p
  cases value with
  | false => exact ⟨{
      tokens := _
      lexes := .mark rfl (.finish (p + 1))
      derivation := .literal ⟨.literal false, p, "0"⟩ false rfl
      yield_eq := rfl
      tree_eq := rfl
      depth_eq := rfl }⟩
  | true => exact ⟨{
      tokens := _
      lexes := .mark rfl (.finish (p + 1))
      derivation := .literal ⟨.literal true, p, "1"⟩ true rfl
      yield_eq := rfl
      tree_eq := rfl
      depth_eq := rfl }⟩

theorem name {name : String} (h : Token.IsName name) : Spells .operand name (.var name) 0 := by
  intro p
  exact ⟨{
    tokens := _
    lexes := Token.lexes_name h
    derivation := .var ⟨.var, p, name⟩ rfl
    yield_eq := rfl
    tree_eq := rfl
    depth_eq := rfl }⟩

theorem single (h : Spells (below op) s e depth) : Spells (.chain op) s e depth := by
  intro p
  obtain ⟨x⟩ := h p
  exact ⟨{
    tokens := x.tokens
    lexes := x.lexes
    derivation := .single x.derivation
    yield_eq := x.yield_eq
    tree_eq := x.tree_eq
    depth_eq := x.depth_eq }⟩

theorem group (h : Spells expression s e depth) :
    Spells .operand ("(" ++ s ++ ")") e (depth + 1) := by
  intro p
  obtain ⟨x⟩ := h (p + 1)
  have hclose : Token.Lexes (p + 1 + s.toList.length) [')'] _ := .mark rfl (.finish _)
  have hrest := x.lexes.append hclose (Token.separate_cons _ (by decide) [])
  exact ⟨{
    tokens := _
    lexes := by
      rw [String.toList_append, String.toList_append, List.append_assoc]
      exact .mark (c := '(') rfl hrest
    derivation := .group ⟨.opening, p, "("⟩ rfl x.derivation
      ⟨.closing, (p + 1 + s.toList.length : Nat), ")"⟩ rfl
    yield_eq := by
      rw [Derivation.yield, x.yield_eq, Token.body_cons (by simp), Token.body_append]
      rfl
    tree_eq := by rw [Derivation.tree, x.tree_eq]
    depth_eq := by rw [Derivation.depth, x.depth_eq] }⟩

theorem isLetter_of_mem_word (op : Op) : ∀ c ∈ op.word.toList, Token.isLetter c = true := by
  have hall : op.word.toList.all Token.isLetter = true := by cases op <;> rfl
  exact List.all_eq_true.mp hall

theorem ofWord_word (op : Op) (p : Nat) :
    Token.ofWord p op.word.toList = .ok ⟨.operator op, p, op.word⟩ := by
  cases op <;> rfl

/-- The word of an operator, with a space on both sides. -/
theorem lexes_operator (op : Op) {p : Nat} {cs : List Char} {tokens : List Token}
    (h : Token.Lexes (p + 1 + op.word.length + 1) cs tokens) :
    Token.Lexes p (' ' :: (op.word.toList ++ ' ' :: cs))
      (⟨.operator op, (p + 1 : Nat), op.word⟩ :: tokens) := by
  have hrest : ∀ c ∈ (' ' :: cs).head?, ¬Token.isLetter c = true := by
    intro c hc
    obtain rfl : ' ' = c := Option.some.inj hc
    decide
  have hne : op.word.toList ≠ [] := by cases op <;> exact List.cons_ne_nil _ _
  have hafter : Token.Lexes (p + 1 + op.word.toList.length) (' ' :: cs) tokens := .space rfl h
  exact .space rfl (.word hne (isLetter_of_mem_word op) hrest (ofWord_word op _) hafter)

/-- Two texts with the operator between them. -/
theorem lexes_joined (op : Op) {p : Nat} {ts us : List Token} (h : Token.Lexes p s.toList ts)
    (h' : Token.Lexes (p + s.toList.length + 1 + op.word.length + 1) s'.toList us) :
    Token.Lexes p (s ++ " " ++ op.word ++ " " ++ s').toList
      (Token.body ts ++ ⟨.operator op, (p + s.toList.length + 1 : Nat), op.word⟩ :: us) := by
  have hwhole := h.append (lexes_operator op h') (Token.separate_cons _ (by decide) _)
  simp only [String.toList_append, List.append_assoc]
  exact hwhole

theorem join (h : Spells (.chain op) s e depth) (h' : Spells (below op) s' e' depth') :
    Spells (.chain op) (s ++ " " ++ op.word ++ " " ++ s') (.binary op e e') (max depth depth') := by
  intro p
  obtain ⟨x⟩ := h p
  obtain ⟨y⟩ := h' (p + s.toList.length + 1 + op.word.length + 1)
  exact ⟨{
    tokens := _
    lexes := lexes_joined op x.lexes y.lexes
    derivation := x.derivation.join ⟨.operator op, _, op.word⟩ rfl y.derivation
    yield_eq := by
      rw [Derivation.yield, x.yield_eq, y.yield_eq, Token.body_append, Token.body_cons (by simp)]
    tree_eq := by rw [Derivation.tree, x.tree_eq, y.tree_eq]
    depth_eq := by rw [Derivation.depth, x.depth_eq, y.depth_eq] }⟩

/-- An operand may stand in any place. -/
theorem of_operand (h : Spells .operand s e depth) (l : Level) : Spells l s e depth := by
  match l with
  | .operand => exact h
  | .chain .and => exact single h
  | .chain .or => exact single (single h)

/-- Whatever may stand in some place is a whole expression. -/
theorem whole (h : Spells l s e depth) : Spells expression s e depth := by
  match l with
  | .operand => exact h.of_operand expression
  | .chain .and => exact single h
  | .chain .or => exact h

end Spells

end Grammar

namespace NestingLimit

theorem ofInt_value (parameter : String) (limit : NestingLimit) :
    ofInt parameter limit.value = .ok limit := by
  have h : (1 : Int) ≤ limit.value ∧ (limit.value : Int) ≤ max := by
    have hone := limit.one_le
    have hmax := limit.le_max
    omega
  rw [ofInt, dif_pos h]
  rfl

end NestingLimit

namespace Expr

open Grammar

variable {limit : NestingLimit} {source : String} {tokens : List Token} {e : Expr} {depth : Nat}

theorem read_of_lexes (limit : NestingLimit) (h : Token.Lexes 0 source.toList tokens) :
    read limit.value source =
      (ofTokens limit tokens).mapError fun e => .refused (.malformed e) := by
  have hlex : Token.lex source = .ok tokens := Token.lexFrom_of_lexes h
  rw [read, hlex]
  change readTokens limit.value tokens = _
  rw [readTokens, limit.ofInt_value]
  rfl

theorem read_of_spells (h : Spells Grammar.expression source e depth)
    (hdepth : depth ≤ limit.value) :
    read limit.value source = .ok e := by
  obtain ⟨x⟩ := h 0
  have hread := ofTokens_of_derivation x.derivation x.yield_eq (x.depth_eq ▸ hdepth)
  rw [read_of_lexes limit x.lexes, hread, x.tree_eq]
  rfl

theorem read_tooDeep_of_spells (h : Spells Grammar.expression source e depth)
    (hdepth : limit.value < depth) :
    ∃ p, read limit.value source =
      .error (.refused (.malformed (.nestingTooDeep p limit.value))) := by
  obtain ⟨x⟩ := h 0
  obtain ⟨p, hp⟩ := ofTokens_tooDeep x.derivation x.yield_eq (x.depth_eq ▸ hdepth)
  refine ⟨p, ?_⟩
  rw [read_of_lexes limit x.lexes, hp]
  rfl

/-- What is read from a text is spelled by it, within the limit. -/
theorem exists_spelling_of_read (h : read limit.value source = .ok e) :
    ∃ depth, depth ≤ limit.value ∧ Nonempty (Spelling Grammar.expression 0 source e depth) := by
  unfold read at h
  obtain ⟨tokens, hlex, -⟩ := Outcome.bind_eq_ok.mp h
  have hlexes := Token.lexes_of_lexFrom (Outcome.mapError_eq_ok.mp hlex)
  have hread := (read_of_lexes limit hlexes).symm.trans h
  obtain ⟨d, hyield, htree, hdepth⟩ :=
    exists_derivation_of_ofTokens (Outcome.mapError_eq_ok.mp hread)
  exact ⟨d.depth, hdepth, ⟨tokens, hlexes, d, hyield, htree, rfl⟩⟩

end Expr

namespace Engine

open Grammar

variable {engine : Engine} {source : String} {e : Expr} {depth : Nat}

/-- What an engine reads from a text is spelled by it, within the limit on nesting. -/
theorem exists_spelling_of_parse (h : engine.parse source = .ok e) :
    ∃ depth, depth ≤ engine.nesting.value ∧
      Nonempty (Spelling Grammar.expression 0 source e depth) := by
  obtain ⟨-, tokens, hlex, hread⟩ := parse_eq_ok_iff.mp h
  obtain ⟨d, hyield, htree, hdepth⟩ := exists_derivation_of_ofTokens hread
  exact ⟨d.depth, hdepth, ⟨tokens, Token.lexes_of_lexFrom hlex, d, hyield, htree, rfl⟩⟩

/-- What a text spells is read from it by every engine whose limits admit the text. -/
theorem parse_of_spelling (x : Spelling Grammar.expression 0 source e depth)
    (hadmits : engine.admits source.length = true) (hdepth : depth ≤ engine.nesting.value) :
    engine.parse source = .ok e := by
  have hread := ofTokens_of_derivation x.derivation x.yield_eq (x.depth_eq ▸ hdepth)
  rw [x.tree_eq] at hread
  exact parse_eq_ok_iff.mpr ⟨hadmits, x.tokens, Token.lexFrom_of_lexes x.lexes, hread⟩

end Engine

end BoolExpr
