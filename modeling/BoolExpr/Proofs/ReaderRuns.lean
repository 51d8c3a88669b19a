import BoolExpr.Expr.Parser
import BoolExpr.Proofs.Outcome

/-!
What readers return, apart from the bounds on the rest that they carry. Each reader of the grammar
has its equations here, one for each way in which it goes on, and later modules use these equations
in place of the definitions.
-/
namespace BoolExpr.Expr

def Reader.run (reader : Reader) (after : Option Token) (tokens : List Token) :
    Except SyntaxError (Expr × List Token) :=
  (reader after tokens).map fun r => (r.value, r.rest)

def runJoin (op : Op) (reader : Reader) (left : Expr) (tokens : List Token) :
    Except SyntaxError (Expr × List Token) :=
  (joinFrom op reader left tokens).map fun r => (r.value, r.rest)

def runClose (paren : Token) (body : Expr × List Token) : Except SyntaxError (Expr × List Token) :=
  match body.2 with
  | [] => .error (.unmatchedParen paren.position "(")
  | t :: rest =>
    if t.kind = .closing then .ok (body.1, rest)
    else .error (.unexpectedToken t.position t.text "')'")

def runEnd (whole : Expr × List Token) : Except SyntaxError Expr :=
  match whole.2 with
  | [] => .ok whole.1
  | t :: _ =>
    if t.kind = .closing then .error (.unmatchedParen t.position ")")
    else .error (.trailingInput t.position t.text)

variable {op : Op} {reader : Reader} {left : Expr} {after : Option Token} {t : Token}
  {rest tokens opened : List Token} {endPosition : Int} {levels : Nat}

theorem run_ok {r : Reading Token Expr tokens.length} (h : reader after tokens = .ok r) :
    reader.run after tokens = .ok (r.value, r.rest) := by
  rw [Reader.run, h]
  rfl

theorem run_error {e : SyntaxError} (h : reader after tokens = .error e) :
    reader.run after tokens = .error e := by
  rw [Reader.run, h]
  rfl

@[simp]
theorem runJoin_nil : runJoin op reader left [] = .ok (left, []) := by
  rw [runJoin, joinFrom]
  rfl

theorem runJoin_operator (h : t.kind = .operator op) :
    runJoin op reader left (t :: rest) = (do
      let right ← reader.run (some t) rest
      runJoin op reader (.binary op left right.1) right.2) := by
  rw [runJoin, joinFrom, if_pos h]
  cases hright : reader (some t) rest with
  | error e =>
    rw [run_error hright]
    rfl
  | ok right =>
    rw [run_ok hright]
    change (do
      let joined ← joinFrom op reader (.binary op left right.value) right.rest
      return joined.weaken _).map _ = runJoin op reader (.binary op left right.value) right.rest
    rw [runJoin]
    cases joinFrom op reader (.binary op left right.value) right.rest <;> rfl

theorem runJoin_operator_ok {r : Expr × List Token} (ht : t.kind = .operator op)
    (h : runJoin op reader left (t :: rest) = .ok r) :
    ∃ right : Reading Token Expr rest.length,
      reader.run (some t) rest = .ok (right.value, right.rest) ∧
        runJoin op reader (.binary op left right.value) right.rest = .ok r := by
  rw [runJoin_operator ht] at h
  cases hright : reader (some t) rest with
  | error e =>
    rw [run_error hright] at h
    cases h
  | ok right =>
    have hrun := run_ok hright
    rw [hrun] at h
    exact ⟨right, hrun, h⟩

theorem runJoin_other (h : t.kind ≠ .operator op) :
    runJoin op reader left (t :: rest) = .ok (left, t :: rest) := by
  rw [runJoin, joinFrom, if_neg h]
  rfl

theorem run_chain : (chain op reader).run after tokens = (do
    let first ← reader.run after tokens
    runJoin op reader first.1 first.2) := by
  cases hfirst : reader after tokens with
  | error e =>
    rw [run_error hfirst, Reader.run, chain, hfirst]
    rfl
  | ok first =>
    rw [run_ok hfirst, Reader.run, chain, hfirst]
    change (do
      let joined ← joinFrom op reader first.value first.rest
      return joined.weaken _).map _ = runJoin op reader first.value first.rest
    rw [runJoin]
    cases joinFrom op reader first.value first.rest <;> rfl

theorem close_map (paren : Token) {n : Nat} (body : Reading Token Expr n) :
    (close paren body).map (fun r => (r.value, r.rest)) =
      runClose paren (body.value, body.rest) := by
  unfold close runClose
  split
  · rename_i h
    simp only [h]
    rfl
  · rename_i t rest h
    simp only [h]
    split <;> rfl

theorem run_operand_nil : (operand endPosition levels opened).run after [] =
    .error (endFailure endPosition opened after) := by
  rw [Reader.run, operand]
  rfl

theorem run_operand_literal {value : Bool} (h : t.kind = .literal value) :
    (operand endPosition levels opened).run after (t :: rest) = .ok (.literal value, rest) := by
  rw [Reader.run, operand.eq_def]
  simp only [h]
  rfl

theorem run_operand_var (h : t.kind = .var) :
    (operand endPosition levels opened).run after (t :: rest) = .ok (.var t.text, rest) := by
  rw [Reader.run, operand.eq_def]
  simp only [h]
  rfl

theorem run_operand_tooDeep (h : t.kind = .opening) :
    (operand endPosition 0 opened).run after (t :: rest) =
      .error (.nestingTooDeep t.position opened.length) := by
  rw [Reader.run, operand.eq_def]
  simp only [h]
  rfl

theorem run_operand_group (h : t.kind = .opening) :
    (operand endPosition (levels + 1) opened).run after (t :: rest) = (do
      let body ← (expression endPosition levels (t :: opened)).run none rest
      runClose t body) := by
  rw [Reader.run, operand.eq_def]
  simp only [h]
  change (do
    let body ← expression endPosition levels (t :: opened) none rest
    let closed ← close t body
    return closed.weaken _ : Except SyntaxError (Reading Token Expr _)).map _ = _
  cases hbody : expression endPosition levels (t :: opened) none rest with
  | error e =>
    rw [run_error hbody]
    rfl
  | ok body =>
    rw [run_ok hbody]
    change _ = runClose t (body.value, body.rest)
    rw [← close_map]
    change (do
      let closed ← close t body
      return closed.weaken _ : Except SyntaxError (Reading Token Expr _)).map _ = _
    cases close t body <;> rfl

theorem run_operand_closing (h : t.kind = .closing) :
    (operand endPosition levels opened).run after (t :: rest) =
      match after with
      | some op => .error (.missingOperand op.position op.text)
      | none => .error (.unexpectedToken t.position t.text operandWanted) := by
  rw [Reader.run, operand.eq_def]
  simp only [h]
  cases after <;> rfl

theorem run_operand_operator (h : t.kind = .operator op) :
    (operand endPosition levels opened).run after (t :: rest) =
      .error (.unexpectedToken t.position t.text operandWanted) := by
  rw [Reader.run, operand.eq_def]
  simp only [h]
  rfl

theorem run_operand_finish (h : t.kind = .finish) :
    (operand endPosition levels opened).run after (t :: rest) =
      .error (.unexpectedToken t.position t.text operandWanted) := by
  rw [Reader.run, operand.eq_def]
  simp only [h]
  rfl

/-- An operand is a literal, a variable, or a group that one more level has room for. -/
theorem run_operand_ok {r : Expr × List Token}
    (h : (operand endPosition levels opened).run after tokens = .ok r) :
    ∃ t rest, tokens = t :: rest ∧
      ((∃ value, t.kind = .literal value ∧ r = (.literal value, rest)) ∨
        (t.kind = .var ∧ r = (.var t.text, rest)) ∨
        (t.kind = .opening ∧ ∃ inner body, levels = inner + 1 ∧
          (expression endPosition inner (t :: opened)).run none rest = .ok body ∧
            runClose t body = .ok r)) := by
  cases tokens with
  | nil =>
    rw [run_operand_nil] at h
    cases h
  | cons t rest =>
    refine ⟨t, rest, rfl, ?_⟩
    cases ht : t.kind with
    | literal value =>
      rw [run_operand_literal ht, Except.ok.injEq] at h
      exact Or.inl ⟨value, rfl, h.symm⟩
    | var =>
      rw [run_operand_var ht, Except.ok.injEq] at h
      exact Or.inr (Or.inl ⟨rfl, h.symm⟩)
    | opening =>
      cases levels with
      | zero =>
        rw [run_operand_tooDeep ht] at h
        cases h
      | succ inner =>
        rw [run_operand_group ht, Outcome.bind_eq_ok] at h
        obtain ⟨body, hbody, hclose⟩ := h
        exact Or.inr (Or.inr ⟨rfl, inner, body, rfl, hbody, hclose⟩)
    | closing =>
      rw [run_operand_closing ht] at h
      cases after <;> cases h
    | operator op =>
      rw [run_operand_operator ht] at h
      cases h
    | finish =>
      rw [run_operand_finish ht] at h
      cases h

/-- A join ends before a token that is not its operator. What all that its operands leave has in
common, the rest of the join has too. -/
theorem runJoin_rest {P : List Token → Prop}
    (hreader : ∀ after tokens r, reader.run after tokens = .ok r → P r.2)
    {r : Expr × List Token} (hP : P tokens) (h : runJoin op reader left tokens = .ok r) :
    P r.2 ∧ ∀ t ∈ r.2.head?, t.kind ≠ .operator op := by
  induction left, tokens using joinFrom.induct op with
  | case1 left =>
    rw [runJoin_nil, Except.ok.injEq] at h
    subst h
    exact ⟨hP, by simp⟩
  | case2 left t rest ht ih =>
    obtain ⟨right, hright, hjoin⟩ := runJoin_operator_ok ht h
    exact ih right (hreader _ _ _ hright) hjoin
  | case3 left t rest ht =>
    rw [runJoin_other ht, Except.ok.injEq] at h
    subst h
    exact ⟨hP, by simpa using ht⟩

theorem run_chain_rest {P : List Token → Prop}
    (hreader : ∀ after tokens r, reader.run after tokens = .ok r → P r.2)
    {r : Expr × List Token} (h : (chain op reader).run after tokens = .ok r) :
    P r.2 ∧ ∀ t ∈ r.2.head?, t.kind ≠ .operator op := by
  rw [run_chain, Outcome.bind_eq_ok] at h
  obtain ⟨first, hfirst, hjoin⟩ := h
  exact runJoin_rest hreader (hreader _ _ _ hfirst) hjoin

/-- An expression ends before a token that is no operator at all. -/
theorem run_expression_rest {r : Expr × List Token}
    (h : (expression endPosition levels opened).run after tokens = .ok r) :
    ∀ t ∈ r.2.head?, ∀ op, t.kind ≠ .operator op := by
  have hconjunction : ∀ after tokens r,
      (chain .and (operand endPosition levels opened)).run after tokens = .ok r →
        ∀ t ∈ r.2.head?, t.kind ≠ .operator .and := fun _ _ _ h =>
    (run_chain_rest (P := fun _ => True) (fun _ _ _ _ => trivial) h).2
  obtain ⟨hand, hor⟩ :=
    run_chain_rest (P := fun rest => ∀ t ∈ rest.head?, t.kind ≠ .operator .and) hconjunction h
  intro t ht op
  cases op with
  | and => exact hand t ht
  | or => exact hor t ht

theorem ofTokens_eq (limit : NestingLimit) (tokens : List Token) :
    ofTokens limit tokens = (do
      let whole ← (expression (Token.endPosition tokens) limit.value []).run none
        (Token.body tokens)
      runEnd whole) := by
  unfold ofTokens
  cases hwhole : expression (Token.endPosition tokens) limit.value [] none (Token.body tokens) with
  | error e =>
    rw [run_error hwhole]
    rfl
  | ok whole =>
    rw [run_ok hwhole]
    change (match whole.rest with
      | [] => _
      | t :: _ => _) = runEnd (whole.value, whole.rest)
    unfold runEnd
    split <;> simp_all <;> rfl

end BoolExpr.Expr
