import BoolExpr.Proofs.ReaderRuns
import BoolExpr.Proofs.Stop

/-!
Reading tokens by index. The reader here keeps the place that it has come to and the stack of the
parentheses that it has opened, looks every token up by its place, and takes one unit of a supply of
calls wherever it goes one function deeper. Nothing in it is safe by construction: a place without a
token, an empty stack, a stack that is not the one it should be, a loop that does not come to its
end and a call without supply each end the run with a fault of their own. The main statement is that
no tokens lead to a fault, since the reader does what the one by recursion on lists does.
-/
namespace BoolExpr

/-- Ways in which a run that looks things up can break down. -/
inductive Fault where
  /-- A sequence has nothing at the place. -/
  | pastEnd (place : Nat)
  /-- The innermost open parenthesis is asked for where none is open. -/
  | noneOpen
  /-- The parentheses that are kept as open are not those that are. -/
  | misopened (opened : List Token)
  /-- A table has no entry for the key. -/
  | noEntry (key : String)
  /-- The stack of values lacks an operand, or does not end with a single value. -/
  | missingOperand
  | badLimit (e : RangeError)
  | noCallLeft
  | noTurnLeft
deriving DecidableEq

inductive Halt where
  | refused (e : ExprError)
  | fault (f : Fault)
deriving DecidableEq

namespace Halt

def lexical (e : LexError) : Halt := .refused (.lexical e)

def malformed (e : SyntaxError) : Halt := .refused (.malformed e)

end Halt

namespace Token

def openAfter (opened : List Token) (t : Token) : List Token :=
  match t.kind with
  | .opening => t :: opened
  | .closing => opened.tail
  | _ => opened

def unclosed (tokens : List Token) : List Token := tokens.foldl openAfter []

/-- The tokens with an end mark after them, unless the last one is an end mark already. -/
def marked (tokens : List Token) : List Token :=
  match tokens.getLast? with
  | none => [⟨.finish, 0, ""⟩]
  | some last =>
    if last.kind = .finish then tokens
    else tokens ++ [⟨.finish, last.position + last.text.length, ""⟩]

end Token

/-- The place of the next token, and the parentheses that were opened and not closed, innermost
first. -/
structure Cursor where
  place : Nat
  opened : List Token

namespace Cursor

def start : Cursor := ⟨0, []⟩

abbrev Reader := (after : Option Token) → Cursor → Except Halt (Expr × Cursor)

def innermost (s : Cursor) : Except Halt (Token × List Token) :=
  match s.opened with
  | [] => .error (.fault .noneOpen)
  | paren :: outer => .ok (paren, outer)

section

variable (tokens : List Token)

def peek (s : Cursor) : Except Halt Token :=
  match tokens[s.place]? with
  | some t => .ok t
  | none => .error (.fault (.pastEnd s.place))

/-- The next token and the cursor behind it; an end mark is never left behind. -/
def consume (s : Cursor) : Except Halt (Token × Cursor) := do
  let t ← peek tokens s
  return (t, if t.kind = .finish then s else ⟨s.place + 1, s.opened⟩)

/-- Joins further operands to `left` as long as the operator `op` follows, in at most as many turns
as are given. -/
def joinFrom (op : Op) (operand : Reader) :
    (turns : Nat) → (left : Expr) → Cursor → Except Halt (Expr × Cursor)
  | 0, _, _ => .error (.fault .noTurnLeft)
  | turns + 1, left, s => do
    let next ← peek tokens s
    if next.kind = .operator op then do
      let (t, s) ← consume tokens s
      let (right, s) ← operand (some t) s
      joinFrom op operand turns (.binary op left right) s
    else return (left, s)

/-- One or more operands joined by `op`. No loop takes more turns than there are tokens. -/
def chain (op : Op) (operand : Reader) : Reader := fun after s => do
  let (first, s) ← operand after s
  joinFrom tokens op operand tokens.length first s

/-- A literal, a variable or what `group` reads at an opening parenthesis. -/
def operandBy (group : Cursor → Except Halt (Expr × Cursor)) : Reader := fun after s => do
  let t ← peek tokens s
  match t.kind with
  | .literal value => do
    let (_, s) ← consume tokens s
    return (.literal value, s)
  | .var => do
    let (_, s) ← consume tokens s
    return (.var t.text, s)
  | .opening => group s
  | .closing =>
    match after with
    | some op => .error (.malformed (.missingOperand op.position op.text))
    | none => .error (.malformed (.unexpectedToken t.position t.text Expr.operandWanted))
  | .finish =>
    match after with
    | some op => .error (.malformed (.missingOperand op.position op.text))
    | none => do
      let (paren, _) ← s.innermost
      .error (.malformed (.unmatchedParen paren.position "("))
  | .operator _ => .error (.malformed (.unexpectedToken t.position t.text Expr.operandWanted))

def close (paren : Token) (body : Expr × Cursor) : Except Halt (Expr × Cursor) := do
  let t ← peek tokens body.2
  match t.kind with
  | .finish => .error (.malformed (.unmatchedParen paren.position "("))
  | .closing => do
    let (_, s) ← consume tokens body.2
    let (_, outer) ← s.innermost
    return (body.1, ⟨s.place, outer⟩)
  | _ => .error (.malformed (.unexpectedToken t.position t.text "')'"))

def conclude (whole : Expr × Cursor) : Except Halt Expr := do
  let t ← peek tokens whole.2
  match t.kind with
  | .finish => return whole.1
  | .closing => .error (.malformed (.unmatchedParen t.position ")"))
  | _ => .error (.malformed (.trailingInput t.position t.text))

mutual

def disjunction (limit : Nat) : (calls : Nat) → Cursor → Except Halt (Expr × Cursor)
  | 0, _ => .error (.fault .noCallLeft)
  | calls + 1, s => chain tokens .or (conjunction limit calls) none s

def conjunction (limit : Nat) : (calls : Nat) → Reader
  | 0, _, _ => .error (.fault .noCallLeft)
  | calls + 1, after, s => chain tokens .and (operand limit calls) after s

/-- An operand. It is a fault to come here with any stack but that of the parentheses left open so
far. -/
def operand (limit : Nat) : (calls : Nat) → Reader
  | 0, _, _ => .error (.fault .noCallLeft)
  | calls + 1, after, s =>
    if s.opened = Token.unclosed (tokens.take s.place) then
      operandBy tokens (group limit calls) after s
    else .error (.fault (.misopened s.opened))

def group (limit : Nat) : (calls : Nat) → Cursor → Except Halt (Expr × Cursor)
  | 0, _ => .error (.fault .noCallLeft)
  | calls + 1, s => do
    let (paren, s) ← consume tokens s
    if limit ≤ s.opened.length then .error (.malformed (.nestingTooDeep paren.position limit))
    else do
      let body ← disjunction limit calls ⟨s.place, paren :: s.opened⟩
      close tokens paren body

end

def parse (limit : Nat) : (calls : Nat) → Except Halt Expr
  | 0 => .error (.fault .noCallLeft)
  | calls + 1 => do
    let first ← peek tokens start
    if first.kind = .finish then .error (.malformed (.emptyExpression first.position))
    else do
      let whole ← disjunction tokens limit calls start
      conclude tokens whole

end

/-- A run by place ends as a run over lists does: refused for the same reason, or with results that
`R` relates. -/
def EndsAs {α β : Type} (R : α → β → Prop) (x : Except Halt α) (y : Except SyntaxError β) : Prop :=
  match y with
  | .ok b => ∃ a, x = .ok a ∧ R a b
  | .error e => x = .error (.malformed e)

theorem EndsAs.bind {α β γ δ : Type} {R : α → β → Prop} {Q : γ → δ → Prop} {x : Except Halt α}
    {y : Except SyntaxError β} {f : α → Except Halt γ} {g : β → Except SyntaxError δ}
    (h : EndsAs R x y) (hnext : ∀ a b, y = .ok b → R a b → EndsAs Q (f a) (g b)) :
    EndsAs Q (x >>= f) (y >>= g) := by
  cases y with
  | error e =>
    have hx : x = .error (.malformed e) := h
    rw [hx]
    rfl
  | ok b =>
    obtain ⟨a, hx, hab⟩ := h
    rw [hx]
    exact hnext a b rfl hab

theorem EndsAs.eq_mapError {α : Type} {x : Except Halt α} {y : Except SyntaxError α}
    (h : EndsAs Eq x y) : x = y.mapError Halt.malformed := by
  cases y with
  | error e => exact h
  | ok b =>
    obtain ⟨a, hx, rfl⟩ := h
    exact hx

/-- The tokens between the cursor and some end mark are `rest`, and the stack is as it should be. -/
structure Stands (tokens : List Token) (s : Cursor) (rest : List Token) : Prop where
  ahead : ∃ mark more, mark.kind = .finish ∧ tokens.drop s.place = rest ++ mark :: more
  ordinary : ∀ t ∈ rest, t.kind ≠ .finish
  opened_eq : s.opened = Token.unclosed (tokens.take s.place)

variable {tokens rest opened : List Token} {s : Cursor} {t : Token} {limit calls levels : Nat}
  {endPosition : Int} {op : Op}

theorem getElem?_of_drop {α : Type} {xs more : List α} {place : Nat} {x : α}
    (h : xs.drop place = x :: more) : xs[place]? = some x := by
  rw [← List.head?_drop, h]
  rfl

theorem peek_of_drop {more : List Token} (h : tokens.drop s.place = t :: more) :
    peek tokens s = .ok t := by
  rw [peek, getElem?_of_drop h]

namespace Stands

theorem peek_mark (h : Stands tokens s []) :
    ∃ mark, mark.kind = .finish ∧ peek tokens s = .ok mark := by
  obtain ⟨mark, more, hmark, hdrop⟩ := h.ahead
  exact ⟨mark, hmark, peek_of_drop hdrop⟩

theorem peek_next (h : Stands tokens s (t :: rest)) : peek tokens s = .ok t := by
  obtain ⟨mark, more, -, hdrop⟩ := h.ahead
  exact peek_of_drop hdrop

theorem consume_next (h : Stands tokens s (t :: rest)) :
    consume tokens s = .ok (t, ⟨s.place + 1, s.opened⟩) := by
  have hkind : t.kind ≠ .finish := h.ordinary t (by simp)
  simp [consume, h.peek_next, hkind, bind, Except.bind, pure, Except.pure]

theorem next (h : Stands tokens s (t :: rest)) :
    Stands tokens ⟨s.place + 1, Token.openAfter s.opened t⟩ rest := by
  obtain ⟨mark, more, hmark, hdrop⟩ := h.ahead
  have hget : tokens[s.place]? = some t := getElem?_of_drop hdrop
  refine ⟨⟨mark, more, hmark, ?_⟩, fun u hu => h.ordinary u (by simp [hu]), ?_⟩
  · rw [← List.drop_drop, hdrop]
    rfl
  · rw [List.take_add_one, hget, Token.unclosed, Option.toList, List.foldl_append, h.opened_eq]
    rfl

/-- Past a token that is no parenthesis the stack stays as it is. -/
theorem next_of_openAfter (h : Stands tokens s (t :: rest))
    (ht : Token.openAfter s.opened t = s.opened) : Stands tokens ⟨s.place + 1, s.opened⟩ rest := by
  have hnext := h.next
  rwa [ht] at hnext

theorem length_lt (h : Stands tokens s rest) : rest.length < tokens.length := by
  obtain ⟨mark, more, -, hdrop⟩ := h.ahead
  have hlength := congrArg List.length hdrop
  simp only [List.length_drop, List.length_append, List.length_cons] at hlength
  omega

end Stands

def Left (tokens opened : List Token) (r : Expr × Cursor) (r' : Expr × List Token) : Prop :=
  r.1 = r'.1 ∧ r.2.opened = opened ∧ Stands tokens r.2 r'.2

/-- A reader by place follows one over lists inside the parentheses `opened`, wherever something is
left to be said about an end of the tokens: an operator before it, or a parenthesis around it. -/
def Follows (tokens opened : List Token) (reader : Reader) (plain : Expr.Reader) : Prop :=
  ∀ after s rest, Stands tokens s rest → s.opened = opened →
    (rest = [] → after = none → opened ≠ []) →
      EndsAs (Left tokens opened) (reader after s) (plain.run after rest)

theorem joinFrom_mark {reader : Reader} {left : Expr} {turns : Nat} (h : Stands tokens s []) :
    joinFrom tokens op reader (turns + 1) left s = .ok (left, s) := by
  obtain ⟨mark, hmark, hpeek⟩ := h.peek_mark
  have hother : mark.kind ≠ .operator op := by
    rw [hmark]
    exact Token.Kind.noConfusion
  rw [joinFrom, hpeek]
  exact if_neg hother

theorem joinFrom_other {reader : Reader} {left : Expr} {turns : Nat}
    (h : Stands tokens s (t :: rest)) (ht : t.kind ≠ .operator op) :
    joinFrom tokens op reader (turns + 1) left s = .ok (left, s) := by
  rw [joinFrom, h.peek_next]
  exact if_neg ht

theorem joinFrom_operator {reader : Reader} {left : Expr} {turns : Nat}
    (h : Stands tokens s (t :: rest)) (ht : t.kind = .operator op) :
    joinFrom tokens op reader (turns + 1) left s = (do
      let right ← reader (some t) ⟨s.place + 1, s.opened⟩
      joinFrom tokens op reader turns (.binary op left right.1) right.2) := by
  rw [joinFrom, h.peek_next]
  refine (if_pos ht).trans ?_
  rw [h.consume_next]
  rfl

theorem endsAs_joinFrom {reader : Reader} {plain : Expr.Reader}
    (h : Follows tokens opened reader plain) (left : Expr) (rest : List Token) {turns : Nat}
    (hturns : rest.length < turns) (hs : Stands tokens s rest) (hopened : s.opened = opened) :
    EndsAs (Left tokens opened) (joinFrom tokens op reader turns left s)
      (Expr.runJoin op plain left rest) := by
  obtain ⟨turns, rfl⟩ : ∃ n, turns = n + 1 := ⟨turns - 1, by omega⟩
  induction left, rest using Expr.joinFrom.induct op generalizing s turns with
  | case1 left =>
    rw [joinFrom_mark hs, Expr.runJoin_nil]
    exact ⟨_, rfl, rfl, hopened, hs⟩
  | case2 left t rest ht ih =>
    have hstay : Token.openAfter s.opened t = s.opened := by simp [Token.openAfter, ht]
    have hright := h (some t) _ rest (hs.next_of_openAfter hstay) hopened
      fun _ h => absurd h (Option.some_ne_none t)
    rw [joinFrom_operator hs ht, Expr.runJoin_operator ht]
    cases hplain : plain (some t) rest with
    | error e =>
      rw [Expr.run_error hplain] at hright ⊢
      exact hright.bind fun _ _ h => absurd h (by simp)
    | ok right =>
      rw [Expr.run_ok hplain] at hright ⊢
      obtain ⟨⟨e, s'⟩, hreader, rfl, hopened', hs'⟩ := hright
      have hlength := right.rest_lt
      simp only [List.length_cons] at hturns
      obtain ⟨turns, rfl⟩ : ∃ n, turns = n + 1 := ⟨turns - 1, by omega⟩
      rw [hreader]
      exact ih right hs' hopened' turns (by omega)
  | case3 left t rest ht =>
    rw [joinFrom_other hs ht, Expr.runJoin_other ht]
    exact ⟨_, rfl, rfl, hopened, hs⟩

theorem follows_chain {reader : Reader} {plain : Expr.Reader}
    (h : Follows tokens opened reader plain) :
    Follows tokens opened (chain tokens op reader) (Expr.chain op plain) := by
  intro after s rest hs hopened hend
  rw [Expr.run_chain]
  refine (h after s rest hs hopened hend).bind ?_
  rintro ⟨e, s'⟩ ⟨e', rest'⟩ - ⟨rfl, hopened', hs'⟩
  exact endsAs_joinFrom h e rest' hs'.length_lt hs' hopened'

/-- Two calls lead from a disjunction to its operands. -/
theorem endsAs_disjunction
    (h : Follows tokens opened (operand tokens limit calls)
      (Expr.operand endPosition levels opened))
    (hs : Stands tokens s rest) (hopened : s.opened = opened) (hend : rest = [] → opened ≠ []) :
    EndsAs (Left tokens opened) (disjunction tokens limit (calls + 2) s)
      ((Expr.expression endPosition levels opened).run none rest) := by
  have hconjunction : conjunction tokens limit (calls + 1) =
      chain tokens .and (operand tokens limit calls) := by
    funext after s
    rw [conjunction]
  rw [disjunction, hconjunction]
  exact follows_chain (follows_chain h) none s rest hs hopened fun hrest _ => hend hrest

theorem innermost_cons {paren : Token} {outer : List Token} (h : s.opened = paren :: outer) :
    s.innermost = .ok (paren, outer) := by
  rw [innermost, h]

/-- What follows the body of a group closes it, or ends both readers in the same way. -/
theorem endsAs_close {paren : Token} {body : Expr × Cursor} {body' : Expr × List Token}
    (h : Left tokens (paren :: opened) body body') :
    EndsAs (Left tokens opened) (close tokens paren body) (Expr.runClose paren body') := by
  obtain ⟨e, s⟩ := body
  obtain ⟨e', rest⟩ := body'
  obtain ⟨rfl, hopened, hs⟩ := h
  cases rest with
  | nil =>
    obtain ⟨mark, hmark, hpeek⟩ := hs.peek_mark
    show close tokens paren (e, s) = .error _
    simp [close, hpeek, hmark, bind, Except.bind]
  | cons t rest =>
    have hpeek := hs.peek_next
    cases ht : t.kind with
    | closing =>
      have hpopped : Token.openAfter s.opened t = opened := by
        have hstack : s.opened = paren :: opened := hopened
        simp [Token.openAfter, ht, hstack]
      have hnext := hs.next
      rw [hpopped] at hnext
      have hclose : close tokens paren (e, s) = .ok (e, ⟨s.place + 1, opened⟩) := by
        have hinner := innermost_cons (s := ⟨s.place + 1, s.opened⟩) hopened
        simp [close, hpeek, ht, hs.consume_next, hinner, bind, Except.bind, pure, Except.pure]
      have hrun : Expr.runClose paren (e, t :: rest) = .ok (e, rest) := if_pos ht
      rw [hclose, hrun]
      exact ⟨_, rfl, rfl, rfl, hnext⟩
    | finish => exact absurd ht (hs.ordinary t (by simp))
    | _ => simp [EndsAs, close, Expr.runClose, hpeek, ht, bind, Except.bind]

/-- What is left after a whole expression ends both readers in the same way. -/
theorem endsAs_conclude {whole : Expr × Cursor} {whole' : Expr × List Token}
    (h : Left tokens [] whole whole') :
    EndsAs Eq (conclude tokens whole) (Expr.runEnd whole') := by
  obtain ⟨e, s⟩ := whole
  obtain ⟨e', rest⟩ := whole'
  obtain ⟨rfl, -, hs⟩ := h
  cases rest with
  | nil =>
    obtain ⟨mark, hmark, hpeek⟩ := hs.peek_mark
    refine ⟨e, ?_, rfl⟩
    simp [conclude, hpeek, hmark, bind, Except.bind, pure, Except.pure]
  | cons t rest =>
    have hpeek := hs.peek_next
    cases ht : t.kind with
    | finish => exact absurd ht (hs.ordinary t (by simp))
    | _ => simp [EndsAs, conclude, Expr.runEnd, hpeek, ht, bind, Except.bind]

/-- An operand that is no group is the same to both readers, and so is the lack of one. -/
theorem endsAs_operandBy {group : Cursor → Except Halt (Expr × Cursor)} {after : Option Token}
    (hs : Stands tokens s rest) (hopened : s.opened = opened)
    (hend : rest = [] → after = none → opened ≠ [])
    (hgroup : ∀ t more, rest = t :: more → t.kind = .opening →
      EndsAs (Left tokens opened) (group s)
        ((Expr.operand endPosition levels opened).run after rest)) :
    EndsAs (Left tokens opened) (operandBy tokens group after s)
      ((Expr.operand endPosition levels opened).run after rest) := by
  cases rest with
  | nil =>
    obtain ⟨mark, hmark, hpeek⟩ := hs.peek_mark
    rw [Expr.run_operand_nil]
    show operandBy tokens group after s = .error _
    cases after with
    | some op => simp [operandBy, hpeek, hmark, Expr.endFailure, bind, Except.bind]
    | none =>
      obtain ⟨paren, outer, rfl⟩ := List.exists_cons_of_ne_nil (hend rfl rfl)
      simp [operandBy, hpeek, hmark, innermost_cons hopened, Expr.endFailure, bind, Except.bind]
  | cons t rest =>
    have hpeek := hs.peek_next
    have hstay : Token.openAfter s.opened t = s.opened → ∀ e,
        Left tokens opened (e, ⟨s.place + 1, s.opened⟩) (e, rest) :=
      fun ht e => ⟨rfl, hopened, hs.next_of_openAfter ht⟩
    cases ht : t.kind with
    | literal value =>
      rw [Expr.run_operand_literal ht]
      refine ⟨_, ?_, hstay (by simp [Token.openAfter, ht]) _⟩
      simp [operandBy, hpeek, ht, hs.consume_next, bind, Except.bind, pure, Except.pure]
    | var =>
      rw [Expr.run_operand_var ht]
      refine ⟨_, ?_, hstay (by simp [Token.openAfter, ht]) _⟩
      simp [operandBy, hpeek, ht, hs.consume_next, bind, Except.bind, pure, Except.pure]
    | opening =>
      have hby : operandBy tokens group after s = group s := by
        simp [operandBy, hpeek, ht, bind, Except.bind]
      rw [hby]
      exact hgroup t rest rfl ht
    | closing =>
      rw [Expr.run_operand_closing ht]
      cases after <;> simp [EndsAs, operandBy, hpeek, ht, bind, Except.bind]
    | operator op =>
      rw [Expr.run_operand_operator ht]
      simp [EndsAs, operandBy, hpeek, ht, bind, Except.bind]
    | finish => exact absurd ht (hs.ordinary t (by simp))

theorem group_of_full (hs : Stands tokens s (t :: rest)) (hfull : limit ≤ s.opened.length) :
    group tokens limit (calls + 1) s = .error (.malformed (.nestingTooDeep t.position limit)) := by
  rw [group, hs.consume_next]
  exact if_pos hfull

theorem group_of_room (hs : Stands tokens s (t :: rest)) (hroom : s.opened.length < limit) :
    group tokens limit (calls + 1) s = (do
      let body ← disjunction tokens limit calls ⟨s.place + 1, t :: s.opened⟩
      close tokens t body) := by
  have hnotFull : ¬limit ≤ s.opened.length := by omega
  rw [group, hs.consume_next]
  exact if_neg hnotFull

/-- Two calls are enough where no more parentheses may be opened, and each one that may be opened
takes four. -/
theorem follows_operand (hlevels : levels + opened.length = limit)
    (hcalls : 4 * levels + 2 ≤ calls) :
    Follows tokens opened (operand tokens limit calls)
      (Expr.operand endPosition levels opened) := by
  induction levels generalizing opened calls with
  | zero =>
    obtain ⟨calls, rfl⟩ : ∃ n, calls = n + 2 := ⟨calls - 2, by omega⟩
    intro after s rest hs hopened hend
    rw [operand, if_pos hs.opened_eq]
    refine endsAs_operandBy hs hopened hend ?_
    rintro t more rfl ht
    have hfull : limit = opened.length := by omega
    rw [Expr.run_operand_tooDeep ht, ← hfull]
    exact group_of_full hs (by rw [hopened]; omega)
  | succ levels ih =>
    obtain ⟨calls, rfl⟩ : ∃ n, calls = n + 4 := ⟨calls - 4, by omega⟩
    intro after s rest hs hopened hend
    rw [operand, if_pos hs.opened_eq]
    refine endsAs_operandBy hs hopened hend ?_
    rintro t more rfl ht
    have hroom : s.opened.length < limit := by
      rw [hopened]
      omega
    have hpushed : Token.openAfter s.opened t = t :: opened := by
      simp [Token.openAfter, ht, hopened]
    have hnext := hs.next
    rw [hpushed] at hnext
    have hbody : Follows tokens (t :: opened) (operand tokens limit calls)
        (Expr.operand endPosition levels (t :: opened)) :=
      ih (by simp only [List.length_cons]; omega) (by omega)
    rw [Expr.run_operand_group ht, group_of_room hs hroom, hopened]
    refine (endsAs_disjunction hbody hnext rfl fun _ => List.cons_ne_nil t opened).bind ?_
    intro body body' _ hleft
    exact endsAs_close hleft

/-- The tokens that are read end at a mark, which stands where they end. -/
theorem exists_marked (tokens : List Token) :
    ∃ mark more, mark.kind = .finish ∧ mark.position = Token.endPosition tokens ∧
      Token.marked tokens = Token.body tokens ++ mark :: more := by
  cases hfind : tokens.find? fun t => t.kind = .finish with
  | some mark =>
    obtain ⟨hmark, front, more, rfl, hfront⟩ := List.find?_eq_some_iff_append.mp hfind
    simp only [decide_eq_true_eq, Bool.not_eq_true', decide_eq_false_iff_not] at hmark hfront
    have hmarked : ∃ added,
        Token.marked (front ++ mark :: more) = front ++ mark :: more ++ added := by
      unfold Token.marked
      split
      · rename_i hnil
        simp at hnil
      · split
        · exact ⟨[], (List.append_nil _).symm⟩
        · exact ⟨_, rfl⟩
    obtain ⟨added, hadded⟩ := hmarked
    refine ⟨mark, more ++ added, hmark, ?_, ?_⟩
    · rw [Token.endPosition_append_finish hfront hmark]
    · rw [hadded, Token.body_append_finish hfront hmark]
      simp
  | none =>
    have hordinary : ∀ t ∈ tokens, t.kind ≠ .finish := by simpa using hfind
    have hbody : Token.body tokens = tokens := by
      have happend := Token.body_append_of_forall hordinary []
      simpa [Token.body] using happend
    rw [hbody]
    cases hlast : tokens.getLast? with
    | none =>
      obtain rfl : tokens = [] := List.getLast?_eq_none_iff.mp hlast
      exact ⟨_, [], rfl, rfl, rfl⟩
    | some last =>
      have hkind : last.kind ≠ .finish := hordinary last (List.mem_of_getLast? hlast)
      refine ⟨⟨.finish, last.position + last.text.length, ""⟩, [], rfl, ?_, ?_⟩
      · rw [Token.endPosition, hfind, hlast]
      · rw [Token.marked, hlast]
        exact if_neg hkind

/-- Reading by place does what reading by recursion on lists does, whatever the tokens are. Neither
is the supply of calls used up, nor does anything else break down. -/
theorem parse_marked (limit : NestingLimit) (tokens : List Token)
    (hcalls : 4 * limit.value + 5 ≤ calls) :
    parse (Token.marked tokens) limit.value calls =
      (Expr.ofTokens limit tokens).mapError Halt.malformed := by
  obtain ⟨calls, rfl⟩ : ∃ n, calls = n + 3 := ⟨calls - 3, by omega⟩
  obtain ⟨mark, more, hmark, hposition, hmarked⟩ := exists_marked tokens
  have hstart : Stands (Token.marked tokens) start (Token.body tokens) := by
    refine ⟨⟨mark, more, hmark, hmarked⟩, fun t ht => ?_, rfl⟩
    simpa using List.all_eq_true.mp List.all_takeWhile t ht
  have hoperand : Follows (Token.marked tokens) [] (operand (Token.marked tokens) limit.value calls)
      (Expr.operand (Token.endPosition tokens) limit.value []) :=
    follows_operand rfl (by omega)
  rw [parse, Expr.ofTokens_eq]
  cases hbody : Token.body tokens with
  | nil =>
    rw [hbody] at hstart hmarked
    have hpeek : peek (Token.marked tokens) start = .ok mark := peek_of_drop hmarked
    rw [hpeek, Expr.expression, Expr.run_chain, Expr.run_chain, Expr.run_operand_nil]
    refine (if_pos hmark).trans ?_
    rw [hposition]
    rfl
  | cons t rest =>
    rw [hbody] at hstart
    have hkind : t.kind ≠ .finish := hstart.ordinary t (by simp)
    rw [hstart.peek_next]
    refine (if_neg hkind).trans (EndsAs.eq_mapError ?_)
    refine (endsAs_disjunction hoperand hstart rfl fun h => absurd h (by simp)).bind ?_
    intro whole whole' _ hleft
    exact endsAs_conclude hleft

end Cursor

end BoolExpr
