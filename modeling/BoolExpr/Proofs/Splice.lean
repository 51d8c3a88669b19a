import BoolExpr.Proofs.Division
import BoolExpr.Proofs.Spelling
import BoolExpr.Proofs.Substitution

/-!
Substitution of an expression for a variable in a text. Each lexeme of the variable gives way to the
text of the expression in parentheses; parentheses are no words, so the lexemes around them stay
what they are, and the group that comes in is one operand wherever it stands. The main statement is
that the new text is read, one level of parentheses deeper than the two texts together, as the tree
with the expression in the place of the variable.
-/
namespace BoolExpr

namespace Lexeme

def shape (x : Lexeme) : Token.Kind × String := (x.kind, x.text)

theorem shape_token (p : Nat) (x : Lexeme) : (x.token p).shape = x.shape := rfl

end Lexeme

namespace Piece

variable {name : String} {inner : Division} {x y : Piece} {pieces : List Piece}
  {filling : List Token}

def fill (name : String) (filling : List Char) (x : Piece) : List Char :=
  (if x.lexeme.kind = .var ∧ x.lexeme.text = name then filling else x.lexeme.chars) ++ x.gap

/-- The pieces of a text in parentheses, with the white space of another piece after them. -/
def enclosed (inner : Division) (x : Piece) : List Piece :=
  ⟨.opening, inner.lead, inner.blank⟩ :: (inner.pieces ++ [⟨.closing, x.gap, x.blank⟩])

def substitute (name : String) (inner : Division) (x : Piece) : List Piece :=
  if x.lexeme.kind = .var ∧ x.lexeme.text = name then x.enclosed inner else [x]

theorem shapes_tokensFrom (p : Nat) (pieces : List Piece) :
    (tokensFrom p pieces).map Token.shape = pieces.map fun x => x.lexeme.shape := by
  induction pieces generalizing p with
  | nil => rfl
  | cons x rest ih => rw [tokensFrom, List.map_cons, List.map_cons, ih, Lexeme.shape_token]

theorem apart_of_not_word (h : ¬x.lexeme.IsWord) (y : Piece) : Apart x y :=
  fun hx => absurd hx h

theorem apart_of_not_word_right (h : ¬y.lexeme.IsWord) (x : Piece) : Apart x y :=
  fun _ hy => absurd hy h

theorem isChain_enclosed (inner : Division) (x : Piece) : (x.enclosed inner).IsChain Apart := by
  refine List.isChain_cons.mpr ⟨fun y _ => apart_of_not_word id y, ?_⟩
  refine List.isChain_append.mpr ⟨inner.apart, List.isChain_singleton _, fun y _ z hz => ?_⟩
  obtain rfl := Option.some.inj hz
  exact apart_of_not_word_right id y

theorem isChain_substitute (name : String) (inner : Division) (x : Piece) :
    (x.substitute name inner).IsChain Apart := by
  unfold substitute
  split
  · exact isChain_enclosed inner x
  · exact List.isChain_singleton x

theorem substitute_ne_nil (name : String) (inner : Division) (x : Piece) :
    x.substitute name inner ≠ [] := by
  unfold substitute
  split
  · exact List.cons_ne_nil _ _
  · exact List.cons_ne_nil _ _

/-- What a piece becomes begins with a word only if the piece is one. -/
theorem isWord_of_head_substitute (hy : y ∈ (x.substitute name inner).head?)
    (hword : y.lexeme.IsWord) : x.lexeme.IsWord := by
  unfold substitute at hy
  split at hy
  · obtain rfl := Option.some.inj hy
    exact hword.elim
  · obtain rfl := Option.some.inj hy
    exact hword

/-- What a piece becomes ends in its white space, and in a word only if the piece is one. -/
theorem isWord_of_getLast_substitute (hy : y ∈ (x.substitute name inner).getLast?) :
    y.gap = x.gap ∧ (y.lexeme.IsWord → x.lexeme.IsWord) := by
  unfold substitute at hy
  split at hy
  · rw [enclosed, ← List.cons_append, List.getLast?_concat] at hy
    obtain rfl := Option.some.inj hy
    exact ⟨rfl, False.elim⟩
  · obtain rfl := Option.some.inj hy
    exact ⟨rfl, id⟩

theorem isChain_flatMap_substitute (h : pieces.IsChain Apart) (name : String) (inner : Division) :
    (pieces.flatMap (substitute name inner)).IsChain Apart := by
  have hne : [] ∉ pieces.map (substitute name inner) := by
    rw [List.mem_map]
    rintro ⟨x, -, hx⟩
    exact substitute_ne_nil name inner x hx
  rw [List.flatMap_def, List.isChain_flatten hne]
  constructor
  · intro xs hxs
    obtain ⟨x, -, rfl⟩ := List.mem_map.mp hxs
    exact isChain_substitute name inner x
  -- where the outcomes of two pieces meet stand the pieces themselves, or a parenthesis
  · refine List.isChain_map_of_isChain _ ?_ h
    intro x y hxy z hz w hw hzword hwword
    obtain ⟨hgap, hzx⟩ := isWord_of_getLast_substitute hz
    rw [hgap]
    exact hxy (hzx hzword) (isWord_of_head_substitute hw hwword)

theorem spelled_enclosed (inner : Division) (x : Piece) :
    spelled (x.enclosed inner) = '(' :: (inner.text ++ ')' :: x.gap) := by
  rw [enclosed, spelled_cons, spelled_append, Division.text, List.append_assoc]
  simp [spelled, chars, Lexeme.chars]

theorem spelled_substitute (name : String) (inner : Division) (x : Piece) :
    spelled (x.substitute name inner) = x.fill name ('(' :: (inner.text ++ [')'])) := by
  unfold substitute fill
  split
  · rw [spelled_enclosed, List.cons_append, List.append_assoc, List.singleton_append]
  · exact spelled_singleton x

/-- What pieces become has the tokens that come in the places of their tokens. -/
theorem shapes_flatMap_substitute
    (hfilling : filling.map Token.shape =
      (.opening, "(") :: (inner.pieces.map (fun x => x.lexeme.shape) ++ [(.closing, ")")]))
    (p : Nat) (pieces : List Piece) :
    (pieces.flatMap (substitute name inner)).map (fun x => x.lexeme.shape) =
      ((tokensFrom p pieces).flatMap fun t =>
        if t.kind = .var ∧ t.text = name then filling else [t]).map Token.shape := by
  induction pieces generalizing p with
  | nil => rfl
  | cons x rest ih =>
    rw [tokensFrom, List.flatMap_cons, List.flatMap_cons, List.map_append, List.map_append,
      ih (p + x.chars.length)]
    refine congrArg (· ++ _) ?_
    change _ = (if x.lexeme.kind = .var ∧ x.lexeme.text = name then filling
      else [x.lexeme.token p]).map Token.shape
    unfold substitute
    split
    · rw [hfilling, enclosed, List.map_cons, List.map_append]
      rfl
    · rfl

end Piece

namespace Division

open Grammar Piece

def replaceVar (x : Division) (name filling : String) : String :=
  String.ofList (x.lead ++ x.pieces.flatMap (Piece.fill name filling.toList))

def substitute (x : Division) (name : String) (inner : Division) : Division where
  lead := x.lead
  pieces := x.pieces.flatMap (Piece.substitute name inner)
  blank := x.blank
  apart := isChain_flatMap_substitute x.apart name inner

theorem text_substitute (x : Division) (name : String) {y : Division} {inner : String}
    (hy : y.text = inner.toList) :
    (x.substitute name y).text = (x.replaceVar name ("(" ++ inner ++ ")")).toList := by
  have hfilling : ("(" ++ inner ++ ")").toList = '(' :: (y.text ++ [')']) := by
    rw [String.toList_append, String.toList_append, hy]
    rfl
  have hspelled : spelled (x.pieces.flatMap (Piece.substitute name y)) =
      x.pieces.flatMap (Piece.fill name ('(' :: (y.text ++ [')']))) := by
    rw [spelled, List.flatMap_assoc]
    exact congrArg x.pieces.flatMap (funext (spelled_substitute name y))
  rw [replaceVar, String.toList_ofList, hfilling, ← hspelled]
  rfl

variable {x y : Division} {d f : Derivation expression}

/-- The tokens after a substitution have the derivation after it. -/
theorem exists_derivation_substitute (hd : d.yield = Token.body x.tokens)
    (hf : f.yield = Token.body y.tokens) (name : String) :
    ∃ d' : Derivation expression, d'.yield = Token.body (x.substitute name y).tokens ∧
      d'.tree = d.tree.substitute name f.tree ∧ d'.depth ≤ d.depth + f.depth + 1 := by
  have hfilling : f.enclosed.yield.map Token.shape =
      (.opening, "(") :: (y.pieces.map (fun x => x.lexeme.shape) ++ [(.closing, ")")]) := by
    rw [Derivation.enclosed, Derivation.yield, hf, body_tokens, List.map_cons, List.map_append,
      shapes_tokensFrom]
    rfl
  -- the tokens of the new text stand elsewhere than those of the two texts, so only shapes agree
  have hshapes : (Token.body (x.substitute name y).tokens).map Token.shape =
      (d.substitute name f.enclosed).yield.map Token.shape := by
    rw [body_tokens, shapes_tokensFrom, Derivation.yield_substitute, hd, body_tokens]
    exact shapes_flatMap_substitute hfilling x.lead.length x.pieces
  obtain ⟨d', hyield, htree, hdepth⟩ := (d.substitute name f.enclosed).exists_of_shapes hshapes
  refine ⟨d', hyield, ?_, ?_⟩
  · rw [htree, Derivation.tree_substitute]
    rfl
  · rw [hdepth]
    exact d.depth_substitute_le name f.enclosed

end Division

namespace Engine

def unlimited (limit : NestingLimit) : Engine := ⟨0, limit⟩

theorem parse_unlimited {limit : NestingLimit} {source : String} {tokens : List Token}
    (h : Token.lex source = .ok tokens) :
    (unlimited limit).parse source = (Expr.ofTokens limit tokens).mapError .malformed :=
  parse_of_lex (fun hlong => hlong.1 rfl) h

/-- What is read from a text has a derivation from the tokens of the text. -/
theorem exists_derivation_of_parse {limit : NestingLimit} {source : String} {e : Expr}
    (h : (unlimited limit).parse source = .ok e) :
    ∃ (x : Division) (d : Grammar.Derivation Grammar.expression), x.text = source.toList ∧
      d.yield = Token.body x.tokens ∧ d.tree = e ∧ d.depth ≤ limit.value := by
  obtain ⟨depth, hdepth, ⟨tokens, hlexes, d, hyield, htree, rfl⟩⟩ := exists_spelling_of_parse h
  obtain ⟨x, htext, rfl⟩ := Division.exists_of_lexes hlexes
  exact ⟨x, d, htext, hyield, htree, hdepth⟩

/-- A text in which an expression in parentheses stands in the place of each lexeme of a variable is
read, with one more level of parentheses than the two texts have together, as the tree with the
expression at each leaf of the variable. Its variables are those of the text without that one, with
those of the expression if it occurred; and its value is that of the text when the variable has the
value of the expression. -/
theorem parse_replaceVar {limit outer within : NestingLimit}
    (hlimit : limit.value = outer.value + within.value + 1) {source inner : String} {e f : Expr}
    (he : (unlimited outer).parse source = .ok e) (hf : (unlimited within).parse inner = .ok f)
    (name : String) :
    ∃ x : Division, x.text = source.toList ∧ Token.lex source = .ok x.tokens ∧
      (unlimited limit).parse (x.replaceVar name ("(" ++ inner ++ ")")) =
        .ok (e.substitute name f) ∧
      (e.substitute name f).vars =
        (e.vars.filter fun n => n ≠ name).union (if name ∈ e.vars then f.vars else .empty) ∧
      ∀ b : Bindings, (∀ n ∈ (e.substitute name f).vars, b.contains n = true) →
        (∀ n ∈ f.vars, b.contains n = true) →
        ∃ value result, (unlimited within).evaluate inner b = .ok value ∧
          (unlimited limit).evaluate (x.replaceVar name ("(" ++ inner ++ ")")) b = .ok result ∧
          (unlimited outer).evaluate source (b.set name value) = .ok result := by
  obtain ⟨x, d, hx, hd, rfl, hdepth⟩ := exists_derivation_of_parse he
  obtain ⟨y, df, hy, hdf, rfl, hdepth'⟩ := exists_derivation_of_parse hf
  obtain ⟨d', hd', htree, hdepth''⟩ := Division.exists_derivation_substitute hd hdf name
  have hparse : (unlimited limit).parse (x.replaceVar name ("(" ++ inner ++ ")")) =
      .ok (d.tree.substitute name df.tree) := by
    have hread : Expr.ofTokens limit (x.substitute name y).tokens = .ok d'.tree :=
      Grammar.ofTokens_of_derivation d' hd' (by omega)
    rw [parse_unlimited (Division.lex_text (x.text_substitute name hy)), hread, htree]
    rfl
  refine ⟨x, hx, Division.lex_text hx, hparse, Expr.vars_substitute _ name _, fun b hb hbf => ?_⟩
  obtain ⟨value, result, hvalue, hresult, hsource⟩ := Expr.evaluate_substitute hb hbf
  exact ⟨value, result, (evaluate_of_parse hf b).trans hvalue,
    (evaluate_of_parse hparse b).trans hresult, (evaluate_of_parse he _).trans hsource⟩

/-- The variable stands in a text that has parentheses, in both of its spellings, and one of the
variables that come in is there already. -/
theorem parse_replaceVar_in_group :
    let one : NestingLimit := ⟨1, by decide, by decide⟩
    let three : NestingLimit := ⟨3, by decide, by decide⟩
    let e := Expr.binary .and (.var "x") (.binary .or (.var "x") (.var "y"))
    let f := Expr.binary .or (.var "y") (.var "z")
    let b := Bindings.ofList [("y", false), ("z", true)]
    three.value = one.value + one.value + 1 ∧
      (unlimited one).parse "x AND (X OR y)" = .ok e ∧ (unlimited one).parse "y OR z" = .ok f ∧
      (∀ n ∈ (e.substitute "x" f).vars, b.contains n = true) ∧
      (∀ n ∈ f.vars, b.contains n = true) ∧
      ∃ x : Division, x.text = "x AND (X OR y)".toList ∧
        (unlimited three).parse (x.replaceVar "x" ("(" ++ "y OR z" ++ ")")) =
          .ok (e.substitute "x" f) ∧
        (unlimited three).evaluate (x.replaceVar "x" ("(" ++ "y OR z" ++ ")")) b = .ok true := by
  intro one three e f b
  have he : (unlimited one).parse "x AND (X OR y)" = .ok e := by with_unfolding_all rfl
  have hf : (unlimited one).parse "y OR z" = .ok f := by with_unfolding_all rfl
  have hb : ∀ n ∈ (e.substitute "x" f).vars, b.contains n = true := by decide
  have hbf : ∀ n ∈ f.vars, b.contains n = true := by decide
  have hlimit : three.value = one.value + one.value + 1 := rfl
  obtain ⟨x, hx, -, hparse, -, hvalues⟩ := parse_replaceVar hlimit he hf "x"
  obtain ⟨value, result, hvalue, hresult, hsource⟩ := hvalues b hb hbf
  have hinner : (unlimited one).evaluate "y OR z" b = .ok true := by
    rw [evaluate_of_parse hf, Expr.evaluate_of_contains hbf]
    rfl
  obtain rfl : true = value := Except.ok.inj (hinner.symm.trans hvalue)
  have hset : ∀ n ∈ e.vars, (b.set "x" true).contains n = true := by decide
  have houter : (unlimited one).evaluate "x AND (X OR y)" (b.set "x" true) = .ok true := by
    rw [evaluate_of_parse he, Expr.evaluate_of_contains hset]
    rfl
  obtain rfl : true = result := Except.ok.inj (houter.symm.trans hsource)
  exact ⟨hlimit, he, hf, hb, hbf, x, hx, hparse, hresult⟩

end Engine

end BoolExpr
