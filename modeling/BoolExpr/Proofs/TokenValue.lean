import BoolExpr.Proofs.Evaluation
import BoolExpr.Proofs.Grammar
import BoolExpr.Proofs.Lexing

/-!
The value of an expression from its tokens alone. Tokens with OR outside all parentheses are the
disjunction of the pieces between, tokens with AND outside all parentheses the conjunction, and
what is in parentheses has the value of their inside. The main statement is that evaluating a text
fails in the order of its stages, and otherwise has this value; no tree is mentioned.
-/
namespace BoolExpr

namespace Token

theorem length_lt_of_mem_segments {op : Op} {tokens s : List Token}
    (hcut : 1 < (segments op 0 tokens).length) (hs : s ∈ segments op 0 tokens) :
    s.length < tokens.length := by
  have := length_of_mem_segments hs
  omega

def value (b : String → Bool) (tokens : List Token) : Bool :=
  if 1 < (segments .or 0 tokens).length then
    (segments .or 0 tokens).attach.any fun s => value b s.1
  else if 1 < (segments .and 0 tokens).length then
    (segments .and 0 tokens).attach.all fun s => value b s.1
  else
    match tokens with
    | [] => false
    | t :: rest =>
      match t.kind with
      | .literal v => v
      | .var => b t.text
      | .opening => value b rest.dropLast
      | _ => false
termination_by tokens.length
decreasing_by
  · exact length_lt_of_mem_segments ‹_› s.2
  · exact length_lt_of_mem_segments ‹_› s.2
  · simp only [List.length_dropLast, List.length_cons]
    omega

theorem value_disjunction (b : String → Bool) {tokens : List Token}
    (h : 1 < (segments .or 0 tokens).length) :
    value b tokens = (segments .or 0 tokens).any (value b) := by
  rw [value.eq_def, if_pos h]
  calc
    _ = ((segments .or 0 tokens).attach.map Subtype.val).any (value b) := List.any_map.symm
    _ = _ := by rw [List.attach_map_subtype_val]

theorem value_conjunction (b : String → Bool) {tokens : List Token}
    (hor : ¬1 < (segments .or 0 tokens).length) (h : 1 < (segments .and 0 tokens).length) :
    value b tokens = (segments .and 0 tokens).all (value b) := by
  rw [value.eq_def, if_neg hor, if_pos h]
  calc
    _ = ((segments .and 0 tokens).attach.map Subtype.val).all (value b) := List.all_map.symm
    _ = _ := by rw [List.attach_map_subtype_val]

/-- Tokens that no operator outside all parentheses cuts. -/
theorem value_cons (b : String → Bool) {t : Token} {rest : List Token}
    (hor : segments .or 0 (t :: rest) = [t :: rest])
    (hand : segments .and 0 (t :: rest) = [t :: rest]) :
    value b (t :: rest) =
      match t.kind with
      | .literal v => v
      | .var => b t.text
      | .opening => value b rest.dropLast
      | _ => false := by
  rw [value, if_neg (by simp [hor]), if_neg (by simp [hand])]

def names (tokens : List Token) : NameSet :=
  NameSet.ofList ((tokens.filter fun t => t.kind = .var).map Token.text)

end Token

namespace Grammar.Derivation

variable {l : Level} {op : Op}

theorem one_lt_segments_join (front : Derivation (.chain op)) {t : Token}
    (ht : t.kind = .operator op) (last : Derivation (below op)) :
    1 < (Token.segments op 0 (front.yield ++ t :: last.yield)).length := by
  have hfront := Token.length_segments_pos op 0 front.yield
  rw [segments_join front ht last, List.length_append, List.length_singleton]
  omega

/-- A chain has the value of its operands together. -/
theorem value_chain_or (b : String → Bool) (d : Derivation (.chain .or)) :
    (Token.segments .or 0 d.yield).any (Token.value b) = Token.value b d.yield := by
  cases d with
  | single first =>
    rw [yield, segments_yield_self first (not_admits_below .or)]
    simp
  | join front t ht last =>
    rw [yield, Token.value_disjunction b (one_lt_segments_join front ht last)]

theorem not_cut_conjunction (d : Derivation (.chain .and)) :
    ¬1 < (Token.segments .or 0 d.yield).length := by
  rw [segments_yield_self d (o := .or) (by simp [Level.Admits])]
  simp

theorem value_chain_and (b : String → Bool) (d : Derivation (.chain .and)) :
    (Token.segments .and 0 d.yield).all (Token.value b) = Token.value b d.yield := by
  cases d with
  | single first =>
    rw [yield, segments_yield_self first (not_admits_below .and)]
    simp
  | join front t ht last =>
    have hnot := not_cut_conjunction (front.join t ht last)
    rw [yield] at hnot ⊢
    rw [Token.value_conjunction b hnot (one_lt_segments_join front ht last)]

/-- The value of what is derived is that of the tree. -/
theorem value_yield (b : String → Bool) (d : Derivation l) :
    Token.value b d.yield = d.tree.truth b := by
  induction d with
  | literal t value ht =>
    have hself : ∀ o, Token.segments o 0 [t] = [[t]] := fun o =>
      segments_yield_self (.literal t value ht) id
    rw [yield, Token.value_cons b (hself .or) (hself .and)]
    simp [ht, tree, Expr.truth]
  | var t ht =>
    have hself : ∀ o, Token.segments o 0 [t] = [[t]] := fun o =>
      segments_yield_self (.var t ht) id
    rw [yield, Token.value_cons b (hself .or) (hself .and)]
    simp [ht, tree, Expr.truth]
  | group left hleft body right hright ih =>
    have hself : ∀ o, Token.segments o 0 (left :: (body.yield ++ [right])) =
        [left :: (body.yield ++ [right])] := fun o =>
      segments_yield_self (.group left hleft body right hright) id
    rw [yield, Token.value_cons b (hself .or) (hself .and)]
    simp [hleft, tree, ih]
  | single first ih => exact ih
  | @join op front t ht last ihf ihl =>
    cases op with
    | or =>
      rw [yield, Token.value_disjunction b (one_lt_segments_join front ht last),
        segments_join front ht last, List.any_append, value_chain_or, ihf]
      simp [tree, Expr.truth, ihl]
    | and =>
      have hnot := not_cut_conjunction (front.join t ht last)
      rw [yield] at hnot
      rw [yield, Token.value_conjunction b hnot (one_lt_segments_join front ht last),
        segments_join front ht last, List.all_append, value_chain_and, ihf]
      simp [tree, Expr.truth, ihl]

end Grammar.Derivation

namespace Expr

/-- The variables of what is read are those among the tokens, the end mark and what is after it
left out. -/
theorem vars_eq_names (limit : NestingLimit) {tokens : List Token} {e : Expr}
    (h : Expr.ofTokens limit tokens = .ok e) : e.vars = Token.names (Token.body tokens) := by
  obtain ⟨d, hyield, rfl, -⟩ := Grammar.exists_derivation_of_ofTokens h
  rw [vars, d.names_tree, hyield, Token.names]

end Expr

theorem Token.names_of_lex {source : String} {tokens : List Token}
    (h : Token.lex source = .ok tokens) : names (body tokens) = names tokens := by
  have hend := (lexFrom_eq_ok_iff.mp h).eq_body_append
  have hfinish : ∀ p, ([⟨.finish, p, ""⟩] : List Token).filter (fun t => t.kind = .var) = [] :=
    fun p => rfl
  conv => rhs; rw [hend]
  rw [names, names, List.filter_append, hfinish, List.append_nil]

namespace Engine

/-- Evaluating a text fails because it is too long, or else at its first lexical error, or else
because its tokens are no expression, or else with all variables among its tokens that lack a value.
Otherwise it has the value of its tokens. -/
theorem evaluate_eq_value (engine : Engine) (source : String) (b : Bindings) :
    engine.evaluate source b =
      if engine.maxLength ≠ 0 ∧ engine.maxLength < source.length then
        .error (.tooLong source.length engine.maxLength)
      else
        match Token.lex source with
        | .error e => .error (.lexical e)
        | .ok tokens =>
          match Expr.ofTokens engine.nesting tokens with
          | .error e => .error (.malformed e)
          | .ok _ =>
            let missing := (Token.names tokens).filter fun name => !b.contains name
            if missing.isEmpty then
              .ok (Token.value (fun name => (b.find? name).getD false) (Token.body tokens))
            else .error (.unboundVariables missing) := by
  unfold evaluate
  by_cases hlong : engine.maxLength ≠ 0 ∧ engine.maxLength < source.length
  · rw [if_pos hlong, parse_tooLong hlong]
    rfl
  · rw [if_neg hlong]
    cases hlex : Token.lex source with
    | error e =>
      rw [parse_of_lex_error hlong hlex]
      rfl
    | ok tokens =>
      rw [parse_of_lex hlong hlex]
      cases hread : Expr.ofTokens engine.nesting tokens with
      | error e =>
        simp only [hread]
        rfl
      | ok e =>
        have hmissing : e.missing b =
            (Token.names tokens).filter fun name => !b.contains name := by
          rw [Expr.missing, Expr.vars_eq_names engine.nesting hread, Token.names_of_lex hlex]
        obtain ⟨d, hyield, htree, -⟩ := Grammar.exists_derivation_of_ofTokens hread
        have hvalue : ∀ values, e.truth values = Token.value values (Token.body tokens) :=
          fun values => by rw [← hyield, d.value_yield, htree]
        have hevaluate := e.evaluate_eq b
        rw [hmissing, hvalue] at hevaluate
        simp only [hread]
        exact hevaluate

end Engine

end BoolExpr
