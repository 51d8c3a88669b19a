import BoolExpr.Proofs.ReaderRuns
import Mathlib.Data.List.Forall2

/-!
Reading decides by the kinds of tokens alone. Take two sequences of tokens that stand, token by
token, in a relation that respects kinds. What is read from the one then has a counterpart read from
the other: a tree of the same form, with the texts of related tokens at its leaves, or a failure of
the same sort, which speaks of related tokens. The relation goes with the readers through the tokens
that are left, the parentheses that are open and the operator before an operand.
-/
namespace BoolExpr

namespace Outcome

variable {ε ε' α α' β β' : Type}

/-- Both outcomes are failures in the one relation, or both are values in the other. -/
inductive Related (E : ε → ε' → Prop) (A : α → α' → Prop) : Except ε α → Except ε' α' → Prop
  | error {e : ε} {e' : ε'} (h : E e e') : Related E A (.error e) (.error e')
  | ok {a : α} {a' : α'} (h : A a a') : Related E A (.ok a) (.ok a')

theorem Related.ok_or_error {E : ε → ε' → Prop} {A : α → α' → Prop} {x : Except ε α}
    {x' : Except ε' α'} (h : Related E A x x') :
    (∃ a a', x = .ok a ∧ x' = .ok a' ∧ A a a') ∨
      ∃ e e', x = .error e ∧ x' = .error e' ∧ E e e' := by
  cases h with
  | error he => exact Or.inr ⟨_, _, rfl, rfl, he⟩
  | ok ha => exact Or.inl ⟨_, _, rfl, rfl, ha⟩

theorem Related.bind {E : ε → ε' → Prop} {A : α → α' → Prop} {B : β → β' → Prop}
    {x : Except ε α} {x' : Except ε' α'} {f : α → Except ε β} {f' : α' → Except ε' β'}
    (h : Related E A x x') (hnext : ∀ a a', x = .ok a → A a a' → Related E B (f a) (f' a')) :
    Related E B (x >>= f) (x' >>= f') := by
  cases h with
  | error he => exact .error he
  | ok ha => exact hnext _ _ rfl ha

end Outcome

open Outcome (Related)

/-- Trees of one form, with the texts of related tokens at their leaves. -/
inductive Expr.Corresponds (R : Token → Token → Prop) : Expr → Expr → Prop
  | literal (value : Bool) : Corresponds R (.literal value) (.literal value)
  | var {t t' : Token} (h : R t t') : Corresponds R (.var t.text) (.var t'.text)
  | binary (op : Op) {left left' right right' : Expr} (hleft : Corresponds R left left')
      (hright : Corresponds R right right') :
      Corresponds R (.binary op left right) (.binary op left' right')

inductive SyntaxError.Corresponds (R : Token → Token → Prop) : SyntaxError → SyntaxError → Prop
  | emptyExpression {t t' : Token} (h : R t t') :
      Corresponds R (.emptyExpression t.position) (.emptyExpression t'.position)
  | unexpectedToken {t t' : Token} (h : R t t') (expected : String) :
      Corresponds R (.unexpectedToken t.position t.text expected)
        (.unexpectedToken t'.position t'.text expected)
  | missingOperand {t t' : Token} (h : R t t') :
      Corresponds R (.missingOperand t.position t.text) (.missingOperand t'.position t'.text)
  | unmatchedParen {t t' : Token} (h : R t t') (paren : String) :
      Corresponds R (.unmatchedParen t.position paren) (.unmatchedParen t'.position paren)
  | trailingInput {t t' : Token} (h : R t t') :
      Corresponds R (.trailingInput t.position t.text) (.trailingInput t'.position t'.text)
  | nestingTooDeep {t t' : Token} (h : R t t') (limit : Int) :
      Corresponds R (.nestingTooDeep t.position limit) (.nestingTooDeep t'.position limit)

namespace Expr

variable {R : Token → Token → Prop}

def ReadsAlike (R : Token → Token → Prop) :
    Except SyntaxError (Expr × List Token) → Except SyntaxError (Expr × List Token) → Prop :=
  Related (SyntaxError.Corresponds R) fun r r' => Corresponds R r.1 r'.1 ∧ List.Forall₂ R r.2 r'.2

def Reader.Corresponds (R : Token → Token → Prop) (reader reader' : Reader) : Prop :=
  ∀ after after' tokens tokens', Option.Rel R after after' → List.Forall₂ R tokens tokens' →
    ReadsAlike R (reader.run after tokens) (reader'.run after' tokens')

variable {reader reader' : Reader} {op : Op} {left left' : Expr} {paren paren' mark mark' : Token}
  {tokens tokens' opened opened' : List Token}

theorem endFailure_corresponds (hmark : R mark mark') (hopened : List.Forall₂ R opened opened')
    {after after' : Option Token} (hafter : Option.Rel R after after') :
    SyntaxError.Corresponds R (endFailure mark.position opened after)
      (endFailure mark'.position opened' after') := by
  cases hafter with
  | some h => exact .missingOperand h
  | none =>
    cases hopened with
    | nil => exact .emptyExpression hmark
    | cons h hrest => exact .unmatchedParen h "("

variable (hkind : ∀ t t', R t t' → t.kind = t'.kind)
include hkind

theorem runJoin_corresponds (hreader : reader.Corresponds R reader')
    (hleft : left.Corresponds R left') (htokens : List.Forall₂ R tokens tokens') :
    ReadsAlike R (runJoin op reader left tokens) (runJoin op reader' left' tokens') := by
  induction left, tokens using joinFrom.induct op generalizing left' tokens' with
  | case1 left =>
    cases htokens
    rw [runJoin_nil, runJoin_nil]
    exact .ok ⟨hleft, .nil⟩
  | case2 left t rest ht ih =>
    obtain ⟨t', rest', htt', hrest, rfl⟩ := List.forall₂_cons_left_iff.mp htokens
    rw [runJoin_operator ht, runJoin_operator ((hkind t t' htt').symm.trans ht)]
    refine (hreader _ _ _ _ (.some htt') hrest).bind fun r r' hrun hr => ?_
    obtain ⟨right, -, rfl⟩ := Outcome.map_eq_ok.mp hrun
    exact ih right (.binary op hleft hr.1) hr.2
  | case3 left t rest ht =>
    obtain ⟨t', rest', htt', hrest, rfl⟩ := List.forall₂_cons_left_iff.mp htokens
    rw [runJoin_other ht, runJoin_other fun ht' => ht ((hkind t t' htt').trans ht')]
    exact .ok ⟨hleft, htokens⟩

theorem corresponds_chain (hreader : reader.Corresponds R reader') :
    (chain op reader).Corresponds R (chain op reader') := by
  intro after after' tokens tokens' hafter htokens
  rw [run_chain, run_chain]
  exact (hreader _ _ _ _ hafter htokens).bind fun first first' _ hfirst =>
    runJoin_corresponds hkind hreader hfirst.1 hfirst.2

theorem runClose_corresponds (hparen : R paren paren') {body body' : Expr × List Token}
    (hbody : body.1.Corresponds R body'.1) (hrest : List.Forall₂ R body.2 body'.2) :
    ReadsAlike R (runClose paren body) (runClose paren' body') := by
  obtain ⟨e, tokens⟩ := body
  obtain ⟨e', tokens'⟩ := body'
  cases hrest with
  | nil => exact .error (.unmatchedParen hparen "(")
  | @cons t t' rest rest' htt' hrest =>
    have hsame : t'.kind = t.kind := (hkind t t' htt').symm
    by_cases ht : t.kind = .closing
    · simp only [runClose, hsame, ht, if_true]
      exact .ok ⟨hbody, hrest⟩
    · simp only [runClose, hsame, if_neg ht]
      exact .error (.unexpectedToken htt' "')'")

theorem runEnd_corresponds {whole whole' : Expr × List Token}
    (hwhole : whole.1.Corresponds R whole'.1) (hrest : List.Forall₂ R whole.2 whole'.2) :
    Related (SyntaxError.Corresponds R) (Corresponds R) (runEnd whole) (runEnd whole') := by
  obtain ⟨e, tokens⟩ := whole
  obtain ⟨e', tokens'⟩ := whole'
  cases hrest with
  | nil => exact .ok hwhole
  | @cons t t' rest rest' htt' hrest =>
    have hsame : t'.kind = t.kind := (hkind t t' htt').symm
    by_cases ht : t.kind = .closing
    · simp only [runEnd, hsame, ht, if_true]
      exact .error (.unmatchedParen htt' ")")
    · simp only [runEnd, hsame, if_neg ht]
      exact .error (.trailingInput htt')

theorem corresponds_operand (hmark : R mark mark') {levels : Nat}
    (hopened : List.Forall₂ R opened opened') :
    (operand mark.position levels opened).Corresponds R
      (operand mark'.position levels opened') := by
  -- a group is read with one level less, and its parenthesis joins those that are open
  induction levels using Nat.strongRecOn generalizing opened opened' with
  | ind levels ih =>
    intro after after' tokens tokens' hafter htokens
    cases htokens with
    | nil =>
      rw [run_operand_nil, run_operand_nil]
      exact .error (endFailure_corresponds hmark hopened hafter)
    | @cons t t' rest rest' htt' hrest =>
      have hsame : t'.kind = t.kind := (hkind t t' htt').symm
      cases ht : t.kind with
      | literal value =>
        rw [run_operand_literal ht, run_operand_literal (hsame.trans ht)]
        exact .ok ⟨.literal value, hrest⟩
      | var =>
        rw [run_operand_var ht, run_operand_var (hsame.trans ht)]
        exact .ok ⟨.var htt', hrest⟩
      | opening =>
        cases levels with
        | zero =>
          rw [run_operand_tooDeep ht, run_operand_tooDeep (hsame.trans ht), hopened.length_eq]
          exact .error (.nestingTooDeep htt' _)
        | succ levels =>
          rw [run_operand_group ht, run_operand_group (hsame.trans ht)]
          have hbody : (expression mark.position levels (t :: opened)).Corresponds R
              (expression mark'.position levels (t' :: opened')) :=
            corresponds_chain hkind (corresponds_chain hkind
              (ih levels (Nat.lt_succ_self levels) (.cons htt' hopened)))
          exact (hbody _ _ _ _ .none hrest).bind fun body body' _ h =>
            runClose_corresponds hkind htt' h.1 h.2
      | closing =>
        rw [run_operand_closing ht, run_operand_closing (hsame.trans ht)]
        cases hafter with
        | some h => exact .error (.missingOperand h)
        | none => exact .error (.unexpectedToken htt' operandWanted)
      | operator op =>
        rw [run_operand_operator ht, run_operand_operator (hsame.trans ht)]
        exact .error (.unexpectedToken htt' operandWanted)
      | finish =>
        rw [run_operand_finish ht, run_operand_finish (hsame.trans ht)]
        exact .error (.unexpectedToken htt' operandWanted)

end Expr

namespace Token

variable {R : Token → Token → Prop} {tokens tokens' : List Token}
  (hkind : ∀ t t', R t t' → t.kind = t'.kind)
include hkind

theorem body_corresponds (h : List.Forall₂ R tokens tokens') :
    List.Forall₂ R (body tokens) (body tokens') := by
  induction h with
  | nil => exact .nil
  | @cons t t' rest rest' htt' hrest ih =>
    have hsame : t'.kind = t.kind := (hkind t t' htt').symm
    by_cases ht : t.kind = .finish
    · simp [body, hsame, ht]
    · have hbody : body (t :: rest) = t :: body rest := by simp [body, ht]
      have hbody' : body (t' :: rest') = t' :: body rest' := by simp [body, hsame, ht]
      rw [hbody, hbody']
      exact .cons htt' ih

/-- Tokens with an end mark end at the first one, and so do those that correspond to them. -/
theorem exists_mark_of_corresponds (h : List.Forall₂ R tokens tokens')
    (hmark : ∃ t ∈ tokens, t.kind = .finish) :
    ∃ mark mark', R mark mark' ∧ endPosition tokens = mark.position ∧
      endPosition tokens' = mark'.position := by
  suffices hfind : ∃ mark mark', R mark mark' ∧
      tokens.find? (fun t => t.kind = .finish) = some mark ∧
      tokens'.find? (fun t => t.kind = .finish) = some mark' by
    obtain ⟨mark, mark', hrel, hfound, hfound'⟩ := hfind
    exact ⟨mark, mark', hrel, by rw [endPosition, hfound], by rw [endPosition, hfound']⟩
  induction h with
  | nil => simp at hmark
  | @cons t t' rest rest' htt' hrest ih =>
    have hsame : t'.kind = t.kind := (hkind t t' htt').symm
    by_cases ht : t.kind = .finish
    · exact ⟨t, t', htt', List.find?_cons_of_pos (by simpa using ht),
        List.find?_cons_of_pos (by simpa using hsame.trans ht)⟩
    · rw [List.find?_cons_of_neg (by simpa using ht),
        List.find?_cons_of_neg (by simpa [hsame] using ht)]
      exact ih (by simpa [ht] using hmark)

end Token

/-- What is read from tokens with an end mark, tree or failure, corresponds to what is read from
tokens that correspond to them. -/
theorem Expr.ofTokens_corresponds {R : Token → Token → Prop}
    (hkind : ∀ t t', R t t' → t.kind = t'.kind) {tokens tokens' : List Token}
    (h : List.Forall₂ R tokens tokens') (hmark : ∃ t ∈ tokens, t.kind = .finish)
    (limit : NestingLimit) :
    Related (SyntaxError.Corresponds R) (Expr.Corresponds R) (ofTokens limit tokens)
      (ofTokens limit tokens') := by
  obtain ⟨mark, mark', hrel, hend, hend'⟩ := Token.exists_mark_of_corresponds hkind h hmark
  have hwhole : (expression mark.position limit.value []).Corresponds R
      (expression mark'.position limit.value []) :=
    corresponds_chain hkind (corresponds_chain hkind (corresponds_operand hkind hrel .nil))
  rw [ofTokens_eq, ofTokens_eq, hend, hend']
  exact (hwhole _ _ _ _ .none (Token.body_corresponds hkind h)).bind fun whole whole' _ hr =>
    runEnd_corresponds hkind hr.1 hr.2

end BoolExpr
