import BoolExpr.Proofs.Correspondence
import BoolExpr.Proofs.Splice

/-!
White space and the case of letters. Texts whose lexemes agree one by one, up to the case of letters
in variables, have tokens of the same kinds and texts; only the positions differ, since white space
shifts them. The main statement is that such texts are read as the same tree, or refused with the
same failure at tokens that have the same place in the two texts.
-/
namespace BoolExpr

namespace Lexeme

/-- The same lexeme, or two spellings of a variable in capitals and small letters. -/
inductive Alike : Lexeme → Lexeme → Prop
  | refl (x : Lexeme) : Alike x x
  | var {letters letters' : List Char} (h : IsVariable letters) (h' : IsVariable letters')
      (hcase : letters.map Char.toLower = letters'.map Char.toLower) :
      Alike (.var letters h) (.var letters' h')

/-- Lexemes are alike exactly if they are tokens of the same kind and text. -/
theorem alike_iff {x y : Lexeme} : Alike x y ↔ x.shape = y.shape := by
  constructor
  · rintro (_ | ⟨h, h', hcase⟩)
    · rfl
    · exact congrArg (fun cs => (Token.Kind.var, String.ofList cs)) hcase
  · intro h
    have hkind : x.kind = y.kind := congrArg Prod.fst h
    cases x with
    | literal value =>
      cases y with
      | literal value' =>
        cases hkind
        exact .refl _
      | _ => cases hkind
    | opening =>
      rw [eq_opening_of_kind hkind.symm]
      exact .refl _
    | closing =>
      rw [eq_closing_of_kind hkind.symm]
      exact .refl _
    | operator op =>
      rw [eq_operator_of_kind hkind.symm]
      exact .refl _
    | var letters hletters =>
      cases y with
      | var letters' hletters' =>
        exact .var _ _ (String.ofList_injective (congrArg Prod.snd h))
      | _ => cases hkind

end Lexeme

/-- Both texts have lexemes, and these agree one by one, whatever white space stands around them. -/
def SameLexemes (source source' : String) : Prop :=
  ∃ x y : Division, x.text = source.toList ∧ y.text = source'.toList ∧
    List.Forall₂ Lexeme.Alike (x.pieces.map Piece.lexeme) (y.pieces.map Piece.lexeme)

def SyntaxError.moveTo (p : Int) : SyntaxError → SyntaxError
  | .emptyExpression _ => .emptyExpression p
  | .unexpectedToken _ found expected => .unexpectedToken p found expected
  | .missingOperand _ operator => .missingOperand p operator
  | .unmatchedParen _ paren => .unmatchedParen p paren
  | .trailingInput _ found => .trailingInput p found
  | .nestingTooDeep _ limit => .nestingTooDeep p limit
  | .stated _ message => .stated p message

namespace Token

structure Paired (tokens tokens' : List Token) (t t' : Token) : Prop where
  shape_eq : t.shape = t'.shape
  same_place : ∃ i : Nat, tokens[i]? = some t ∧ tokens'[i]? = some t'

variable {tokens tokens' : List Token} {t t' : Token}

theorem Paired.kind_eq (h : Paired tokens tokens' t t') : t.kind = t'.kind :=
  kind_eq_of_shape h.shape_eq

theorem Paired.text_eq (h : Paired tokens tokens' t t') : t.text = t'.text :=
  congrArg Prod.snd h.shape_eq

theorem forall₂_paired (h : tokens.map shape = tokens'.map shape) :
    List.Forall₂ (Paired tokens tokens') tokens tokens' := by
  have hlength : tokens.length = tokens'.length := by simpa using congrArg List.length h
  refine List.forall₂_iff_get.mpr ⟨hlength, fun i hi hi' => ⟨?_, i, ?_, ?_⟩⟩
  · have hshape := congrArg (·[i]?) h
    simpa [hi, hi'] using hshape
  · simp [hi]
  · simp [hi']

end Token

namespace Division

theorem shapes_tokens (x : Division) :
    x.tokens.map Token.shape =
      (x.pieces.map Piece.lexeme).map Lexeme.shape ++ [(.finish, "")] := by
  rw [tokens, tokensAt, List.map_append, Piece.shapes_tokensFrom, List.map_map]
  rfl

theorem shapes_tokens_eq {x y : Division}
    (h : List.Forall₂ Lexeme.Alike (x.pieces.map Piece.lexeme) (y.pieces.map Piece.lexeme)) :
    x.tokens.map Token.shape = y.tokens.map Token.shape := by
  have hshapes : (x.pieces.map Piece.lexeme).map Lexeme.shape =
      (y.pieces.map Piece.lexeme).map Lexeme.shape := by
    rw [← List.forall₂_eq_eq_eq, List.forall₂_map_left_iff, List.forall₂_map_right_iff]
    exact h.imp fun _ _ => Lexeme.alike_iff.mp
  rw [shapes_tokens, shapes_tokens, hshapes]

end Division

variable {tokens tokens' : List Token}

theorem Expr.Corresponds.eq {e e' : Expr} (h : e.Corresponds (Token.Paired tokens tokens') e') :
    e = e' := by
  induction h with
  | literal value => rfl
  | var h => rw [h.text_eq]
  | binary op hleft hright ihl ihr => rw [ihl, ihr]

/-- The failure is at a token, and its counterpart is the same failure at a related token, if that
has the same text. -/
theorem SyntaxError.Corresponds.exists_token {R : Token → Token → Prop} {e e' : SyntaxError}
    (h : e.Corresponds R e') :
    ∃ t t', R t t' ∧ t.position = e.position ∧ (t.text = t'.text → e' = e.moveTo t'.position) := by
  cases h with
  | emptyExpression h => exact ⟨_, _, h, rfl, fun _ => rfl⟩
  | unexpectedToken h expected =>
    refine ⟨_, _, h, rfl, fun htext => ?_⟩
    rw [htext]
    rfl
  | missingOperand h =>
    refine ⟨_, _, h, rfl, fun htext => ?_⟩
    rw [htext]
    rfl
  | unmatchedParen h paren => exact ⟨_, _, h, rfl, fun _ => rfl⟩
  | trailingInput h =>
    refine ⟨_, _, h, rfl, fun htext => ?_⟩
    rw [htext]
    rfl
  | nestingTooDeep h limit => exact ⟨_, _, h, rfl, fun _ => rfl⟩

/-- What is read from tokens that differ in their positions only: the same tree, or the same failure
at tokens that have the same place. -/
theorem Expr.ofTokens_of_shapes (hmark : ∃ t ∈ tokens, t.kind = .finish)
    (h : tokens.map Token.shape = tokens'.map Token.shape) (limit : NestingLimit) :
    (∃ e, ofTokens limit tokens = .ok e ∧ ofTokens limit tokens' = .ok e) ∨
      ∃ (e : SyntaxError) (i : Nat) (t t' : Token), tokens[i]? = some t ∧ tokens'[i]? = some t' ∧
        t.position = e.position ∧ ofTokens limit tokens = .error e ∧
        ofTokens limit tokens' = .error (e.moveTo t'.position) := by
  have hread := ofTokens_corresponds (fun _ _ h => h.kind_eq) (Token.forall₂_paired h) hmark limit
  rcases hread.ok_or_error with ⟨e, e', he, he', htree⟩ | ⟨e, e', he, he', hfailure⟩
  · exact Or.inl ⟨e, he, by rw [he', htree.eq]⟩
  · obtain ⟨t, t', hpair, hposition, hmove⟩ := hfailure.exists_token
    obtain ⟨i, ht, ht'⟩ := hpair.same_place
    exact Or.inr ⟨e, i, t, t', ht, ht', hposition, he, by rw [he', hmove hpair.text_eq]⟩

namespace Division

theorem exists_finish (x : Division) : ∃ t ∈ x.tokens, t.kind = .finish :=
  ⟨_, List.mem_append_right _ (List.mem_singleton.mpr rfl), rfl⟩

/-- No two tokens of a text stand at one position. -/
theorem place_unique (x : Division) {i j : Nat} {t u : Token} (ht : x.tokens[i]? = some t)
    (hu : x.tokens[j]? = some u) (h : u.position = t.position) : j = i := by
  have hdistinct : (x.tokens.map Token.position).Nodup :=
    x.positions_increasing.imp fun hlt => Int.ne_of_lt hlt
  have hj : j < (x.tokens.map Token.position).length := by
    rw [List.length_map]
    exact (List.getElem?_eq_some_iff.mp hu).1
  refine (List.getElem?_inj hj hdistinct).mp ?_
  rw [List.getElem?_map, List.getElem?_map, ht, hu, Option.map_some, Option.map_some, h]

end Division

namespace Engine

/-- White space and the case of letters do not matter. Texts with the same lexemes have as many
tokens and are both read as the same tree, so that all evaluations agree, or both refused, by
reading and by any evaluation, with the same failure but for its position; and there is one place
among the tokens such that the failure is, in each text, at the token that has this place. -/
theorem parse_sameLexemes {source source' : String} (h : SameLexemes source source')
    (limit : NestingLimit) :
    ∃ tokens tokens', Token.lex source = .ok tokens ∧ Token.lex source' = .ok tokens' ∧
      tokens.length = tokens'.length ∧
      ((∃ e, (unlimited limit).parse source = .ok e ∧ (unlimited limit).parse source' = .ok e ∧
          ∀ b, (unlimited limit).evaluate source b = (unlimited limit).evaluate source' b) ∨
        ∃ (e : SyntaxError) (i : Nat) (t t' : Token), tokens[i]? = some t ∧ tokens'[i]? = some t' ∧
          t.position = e.position ∧
          (∀ j u, tokens[j]? = some u → u.position = e.position → j = i) ∧
          (unlimited limit).parse source = .error (.malformed e) ∧
          (unlimited limit).parse source' = .error (.malformed (e.moveTo t'.position)) ∧
          ∀ b, (unlimited limit).evaluate source b = .error (.malformed e) ∧
            (unlimited limit).evaluate source' b =
              .error (.malformed (e.moveTo t'.position))) := by
  obtain ⟨x, y, hx, hy, halike⟩ := h
  have hlex := Division.lex_text hx
  have hlex' := Division.lex_text hy
  have hshapes := Division.shapes_tokens_eq halike
  refine ⟨x.tokens, y.tokens, hlex, hlex', by simpa using congrArg List.length hshapes, ?_⟩
  have hparse : (unlimited limit).parse source = _ := parse_unlimited hlex
  have hparse' : (unlimited limit).parse source' = _ := parse_unlimited hlex'
  rcases Expr.ofTokens_of_shapes x.exists_finish hshapes limit with
    ⟨e, he, he'⟩ | ⟨e, i, t, t', ht, ht', hposition, he, he'⟩
  · rw [he] at hparse
    rw [he'] at hparse'
    refine Or.inl ⟨e, hparse, hparse', fun b => ?_⟩
    rw [evaluate_of_parse hparse, evaluate_of_parse hparse']
  · rw [he] at hparse
    rw [he'] at hparse'
    have hunique : ∀ j u, x.tokens[j]? = some u → u.position = e.position → j = i :=
      fun j u hu hsame => x.place_unique ht hu (hsame.trans hposition.symm)
    exact Or.inr ⟨e, i, t, t', ht, ht', hposition, hunique, hparse, hparse', fun b =>
      ⟨evaluate_of_parse_error hparse b, evaluate_of_parse_error hparse' b⟩⟩

/-- The second variable is refused, in the other text two characters further on. -/
theorem parse_sameLexemes_of_two_variables :
    SameLexemes "a b" " A  B" ∧
      (unlimited .standard).parse "a b" = .error (.malformed (.trailingInput 2 "b")) ∧
      (unlimited .standard).parse " A  B" = .error (.malformed (.trailingInput 4 "b")) := by
  have hsingle : ∀ c, Token.isLetter c = true → IsVariable [c] :=
    fun c hc => ⟨List.cons_ne_nil _ _, by simpa using hc, Or.inl rfl⟩
  have ha := hsingle 'a' (by decide)
  have hb := hsingle 'b' (by decide)
  have hA := hsingle 'A' (by decide)
  have hB := hsingle 'B' (by decide)
  have hspaces : ∀ n, ∀ c ∈ List.replicate n ' ', c ∈ blanks := by
    intro n c hc
    rw [List.eq_of_mem_replicate hc]
    exact List.mem_cons_self
  let x : Division :=
    ⟨[], [⟨.var ['a'] ha, _, hspaces 1⟩, ⟨.var ['b'] hb, _, hspaces 0⟩], hspaces 0,
      .cons_cons (fun _ _ => List.cons_ne_nil _ _) (.singleton _)⟩
  let y : Division :=
    ⟨_, [⟨.var ['A'] hA, _, hspaces 2⟩, ⟨.var ['B'] hB, _, hspaces 0⟩], hspaces 1,
      .cons_cons (fun _ _ => List.cons_ne_nil _ _) (.singleton _)⟩
  have hsame : SameLexemes "a b" " A  B" :=
    ⟨x, y, rfl, rfl, .cons (.var ha hA rfl) (.cons (.var hb hB rfl) .nil)⟩
  have hparse : (unlimited .standard).parse "a b" = .error (.malformed (.trailingInput 2 "b")) := by
    with_unfolding_all rfl
  refine ⟨hsame, hparse, ?_⟩
  obtain ⟨tokens, tokens', hlex, hlex', -, ⟨e, he, -⟩ | h⟩ := parse_sameLexemes hsame .standard
  · cases hparse.symm.trans he
  · obtain ⟨e, i, t, t', ht, ht', hposition, hunique, he, he', -⟩ := h
    obtain rfl := ExprError.malformed.inj (Except.error.inj (hparse.symm.trans he))
    have htokens : tokens = [⟨.var, 0, "a"⟩, ⟨.var, 2, "b"⟩, ⟨.finish, 3, ""⟩] :=
      Except.ok.inj (hlex.symm.trans (by with_unfolding_all rfl))
    have htokens' : tokens' = [⟨.var, 1, "a"⟩, ⟨.var, 4, "b"⟩, ⟨.finish, 5, ""⟩] :=
      Except.ok.inj (hlex'.symm.trans (by with_unfolding_all rfl))
    obtain rfl : 1 = i := hunique 1 ⟨.var, 2, "b"⟩ (by rw [htokens]; rfl) rfl
    rw [htokens'] at ht'
    obtain rfl := Option.some.inj ht'
    exact he'

end Engine

end BoolExpr
