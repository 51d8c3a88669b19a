import BoolExpr.Proofs.Outcome
import BoolExpr.Proofs.ReaderRuns

/-!
Syntax errors found in one pass. A scan goes over the tokens from left to right and keeps only
whether an operand is due or complete, the operator before an operand that is due, and the
parentheses that are open, innermost first. It stops at the first end mark. The main statement is
that it stops with an error exactly where reading the tokens as an expression does, and with the
same one, whatever the tokens are.
-/
namespace BoolExpr

namespace Scan

/-- Whether an operand is due, and then the last token if it is an operator, or complete. -/
inductive Mode where
  | due (after : Option Token)
  | complete

structure State where
  mode : Mode
  opened : List Token

namespace State

def start : State := ⟨.due none, []⟩

def step (limit : Nat) (s : State) (t : Token) : Except SyntaxError State :=
  match s.mode, t.kind with
  | .due _, .literal _ => .ok ⟨.complete, s.opened⟩
  | .due _, .var => .ok ⟨.complete, s.opened⟩
  | .due _, .opening =>
    if limit ≤ s.opened.length then .error (.nestingTooDeep t.position limit)
    else .ok ⟨.due none, t :: s.opened⟩
  | .due (some op), .closing => .error (.missingOperand op.position op.text)
  | .due _, _ => .error (.unexpectedToken t.position t.text Expr.operandWanted)
  | .complete, .operator _ => .ok ⟨.due (some t), s.opened⟩
  | .complete, .closing =>
    match s.opened with
    | [] => .error (.unmatchedParen t.position ")")
    | _ :: outer => .ok ⟨.complete, outer⟩
  | .complete, _ =>
    match s.opened with
    | [] => .error (.trailingInput t.position t.text)
    | _ :: _ => .error (.unexpectedToken t.position t.text "')'")

def finish (position : Int) (s : State) : Except SyntaxError Unit :=
  match s.mode, s.opened with
  | .due (some op), _ => .error (.missingOperand op.position op.text)
  | .due none, [] => .error (.emptyExpression position)
  | .complete, [] => .ok ()
  | _, paren :: _ => .error (.unmatchedParen paren.position "(")

theorem step_opening {limit : Nat} {opened : List Token} {t : Token} (after : Option Token)
    (ht : t.kind = .opening) (h : opened.length < limit) :
    step limit ⟨.due after, opened⟩ t = .ok ⟨.due none, t :: opened⟩ := by
  have hroom : ¬limit ≤ opened.length := by omega
  simp [step, ht, hroom]

theorem step_operator {op : Op} {t : Token} (limit : Nat) (opened : List Token)
    (ht : t.kind = .operator op) :
    step limit ⟨.complete, opened⟩ t = .ok ⟨.due (some t), opened⟩ := by
  simp [step, ht]

end State

def run (limit : Nat) (position : Int) (s : State) : List Token → Except SyntaxError Unit
  | [] => s.finish position
  | t :: rest =>
    if t.kind = .finish then s.finish t.position
    else do
      let next ← s.step limit t
      run limit (t.position + t.text.length) next rest

/-- The verdict on tokens without an end mark, which end at `endPosition`. -/
def conclude (limit : Nat) (endPosition : Int) (s : State) (tokens : List Token) :
    Except SyntaxError Unit := do
  let last ← tokens.foldlM (State.step limit) s
  last.finish endPosition

variable {limit : Nat} {endPosition : Int} {opened tokens rest : List Token} {s : State} {t : Token}

theorem conclude_nil : conclude limit endPosition s [] = s.finish endPosition := rfl

theorem conclude_cons : conclude limit endPosition s (t :: rest) = (do
    let next ← s.step limit t
    conclude limit endPosition next rest) := by
  rw [conclude, List.foldlM_cons, Outcome.bind_assoc]
  rfl

theorem conclude_step {next : State} (h : s.step limit t = .ok next) :
    conclude limit endPosition s (t :: rest) = conclude limit endPosition next rest := by
  rw [conclude_cons, h]
  rfl

theorem conclude_stop {e : SyntaxError} (h : s.step limit t = .error e) :
    conclude limit endPosition s (t :: rest) = .error e := by
  rw [conclude_cons, h]
  rfl

def endFrom (position : Int) (tokens : List Token) : Int :=
  match tokens.find? fun t => t.kind = .finish with
  | some mark => mark.position
  | none =>
    match tokens.getLast? with
    | some last => last.position + last.text.length
    | none => position

theorem endFrom_cons (position : Int) (h : t.kind ≠ .finish) :
    endFrom position (t :: rest) = endFrom (t.position + t.text.length) rest := by
  rw [endFrom, endFrom, List.find?_cons_of_neg (by simpa using h)]
  cases rest.find? fun t => t.kind = .finish with
  | some mark => rfl
  | none =>
    cases rest with
    | nil => rfl
    | cons u more =>
      rw [List.getLast?_cons_cons]
      simp only [List.getLast?_cons]

/-- Going over raw tokens is going over those before the first end mark. -/
theorem run_eq_conclude (position : Int) :
    run limit position s tokens =
      conclude limit (endFrom position tokens) s (Token.body tokens) := by
  induction tokens generalizing position s with
  | nil => rfl
  | cons t rest ih =>
    by_cases h : t.kind = .finish
    · simp [run, endFrom, Token.body, h, conclude_nil]
    · have hbody : Token.body (t :: rest) = t :: Token.body rest := by simp [Token.body, h]
      rw [run, if_neg h, hbody, conclude_cons, endFrom_cons position h]
      exact Outcome.bind_congr fun next _ => ih _

/-- A reader agrees with the scan inside the parentheses `opened`: the scan stops in what the reader
reads exactly where the reader does, and goes on with an operand complete where it returns. -/
def Agrees (limit : Nat) (endPosition : Int) (opened : List Token) (reader : Expr.Reader) : Prop :=
  ∀ after tokens, conclude limit endPosition ⟨.due after, opened⟩ tokens = (do
    let r ← reader.run after tokens
    conclude limit endPosition ⟨.complete, opened⟩ r.2)

theorem conclude_runJoin {op : Op} {reader : Expr.Reader}
    (h : Agrees limit endPosition opened reader) (left : Expr) (tokens : List Token) :
    conclude limit endPosition ⟨.complete, opened⟩ tokens = (do
      let r ← Expr.runJoin op reader left tokens
      conclude limit endPosition ⟨.complete, opened⟩ r.2) := by
  induction left, tokens using Expr.joinFrom.induct op with
  | case1 left =>
    rw [Expr.runJoin_nil]
    rfl
  | case2 left t rest ht ih =>
    have hstep := State.step_operator limit opened ht
    rw [Expr.runJoin_operator ht, conclude_step hstep, Outcome.bind_assoc, h]
    cases hright : reader (some t) rest with
    | error e =>
      rw [Expr.run_error hright]
      rfl
    | ok right =>
      rw [Expr.run_ok hright]
      exact ih right
  | case3 left t rest ht =>
    rw [Expr.runJoin_other ht]
    rfl

theorem agrees_chain {op : Op} {reader : Expr.Reader}
    (h : Agrees limit endPosition opened reader) :
    Agrees limit endPosition opened (Expr.chain op reader) := by
  intro after tokens
  rw [h after tokens, Expr.run_chain, Outcome.bind_assoc]
  exact Outcome.bind_congr fun first _ => conclude_runJoin h first.1 first.2

/-- What follows the body of a group closes it, or stops the scan as it stops the reader. -/
theorem conclude_runClose (paren : Token) {body : Expr × List Token}
    (h : ∀ t ∈ body.2.head?, ∀ op, t.kind ≠ .operator op) :
    conclude limit endPosition ⟨.complete, paren :: opened⟩ body.2 = (do
      let r ← Expr.runClose paren body
      conclude limit endPosition ⟨.complete, opened⟩ r.2) := by
  obtain ⟨e, rest⟩ := body
  cases rest with
  | nil => rfl
  | cons t rest =>
    rw [conclude_cons]
    cases ht : t.kind with
    | operator op => exact absurd ht (h t (by simp) op)
    | _ => simp [State.step, Expr.runClose, ht, bind, Except.bind]

theorem finish_due (after : Option Token) :
    State.finish endPosition ⟨.due after, opened⟩ =
      .error (Expr.endFailure endPosition opened after) := by
  cases after with
  | some op => rfl
  | none => cases opened <;> rfl

/-- Only at an opening parenthesis does it matter how many more may be opened. -/
theorem agrees_operand_of_opening {levels : Nat}
    (h : ∀ after t rest, t.kind = .opening →
      conclude limit endPosition ⟨.due after, opened⟩ (t :: rest) = (do
        let r ← (Expr.operand endPosition levels opened).run after (t :: rest)
        conclude limit endPosition ⟨.complete, opened⟩ r.2)) :
    Agrees limit endPosition opened (Expr.operand endPosition levels opened) := by
  intro after tokens
  cases tokens with
  | nil =>
    rw [conclude_nil, finish_due, Expr.run_operand_nil]
    rfl
  | cons t rest =>
    cases ht : t.kind with
    | opening => exact h after t rest ht
    | literal value =>
      rw [conclude_cons, Expr.run_operand_literal ht]
      simp [State.step, ht, bind, Except.bind]
    | var =>
      rw [conclude_cons, Expr.run_operand_var ht]
      simp [State.step, ht, bind, Except.bind]
    | closing =>
      rw [conclude_cons, Expr.run_operand_closing ht]
      cases after <;> simp [State.step, ht, bind, Except.bind]
    | operator op =>
      rw [conclude_cons, Expr.run_operand_operator ht]
      simp [State.step, ht, bind, Except.bind]
    | finish =>
      rw [conclude_cons, Expr.run_operand_finish ht]
      simp [State.step, ht, bind, Except.bind]

/-- The parentheses that are open and those that may still be opened make up the limit. -/
theorem agrees_operand {levels : Nat} (h : levels + opened.length = limit) :
    Agrees limit endPosition opened (Expr.operand endPosition levels opened) := by
  induction levels generalizing opened with
  | zero =>
    refine agrees_operand_of_opening fun after t rest ht => ?_
    have hlimit : opened.length = limit := by omega
    rw [conclude_cons, Expr.run_operand_tooDeep ht]
    simp [State.step, ht, hlimit, bind, Except.bind]
  | succ levels ih =>
    refine agrees_operand_of_opening fun after t rest ht => ?_
    have hroom : opened.length < limit := by omega
    have hstep := State.step_opening after ht hroom
    have hbody : Agrees limit endPosition (t :: opened)
        (Expr.expression endPosition levels (t :: opened)) :=
      agrees_chain (agrees_chain (ih (by simp only [List.length_cons]; omega)))
    rw [conclude_step hstep, Expr.run_operand_group ht, Outcome.bind_assoc, hbody none rest]
    exact Outcome.bind_congr fun body h => conclude_runClose t (Expr.run_expression_rest h)

/-- What is left after a whole expression is what stops the scan outside all parentheses. -/
theorem conclude_runEnd {whole : Expr × List Token}
    (h : ∀ t ∈ whole.2.head?, ∀ op, t.kind ≠ .operator op) :
    conclude limit endPosition ⟨.complete, []⟩ whole.2 = (Expr.runEnd whole).map fun _ => () := by
  obtain ⟨e, rest⟩ := whole
  cases rest with
  | nil => rfl
  | cons t rest =>
    rw [conclude_cons]
    cases ht : t.kind with
    | operator op => exact absurd ht (h t (by simp) op)
    | _ => simp [State.step, Expr.runEnd, ht, bind, Except.bind, Except.map]

theorem conclude_ofTokens (limit : NestingLimit) (tokens : List Token) :
    conclude limit.value (Token.endPosition tokens) .start (Token.body tokens) =
      (Expr.ofTokens limit tokens).map fun _ => () := by
  have hwhole : Agrees limit.value (Token.endPosition tokens) []
      (Expr.expression (Token.endPosition tokens) limit.value []) :=
    agrees_chain (agrees_chain (agrees_operand rfl))
  rw [Expr.ofTokens_eq, Outcome.map_bind]
  refine (hwhole none (Token.body tokens)).trans (Outcome.bind_congr fun whole h => ?_)
  exact conclude_runEnd (Expr.run_expression_rest h)

/-- The scan stops with the error that reading the tokens stops with, and accepts them where reading
returns a tree. The tokens may be any at all, with end marks anywhere. -/
theorem ofTokens_eq_run (limit : NestingLimit) (tokens : List Token) :
    ((Expr.ofTokens limit tokens).map fun _ => ()) = run limit.value 0 .start tokens := by
  rw [run_eq_conclude, ← conclude_ofTokens]
  rfl

end Scan

end BoolExpr
