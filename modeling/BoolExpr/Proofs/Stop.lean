import BoolExpr.Proofs.Lexing
import BoolExpr.Proofs.Scan

/-!
Where a scan stops. It stops at the first token that the state before it does not admit, or after
all tokens when they end too early; every state before that one can still be completed, by an
operand if one is due and by closing what is open. The main statement is that tokens which are no
expression are hopeless from exactly one token on: what stands before it can be continued to an
expression, and whatever stands after it, the failure is the same.
-/
namespace BoolExpr

namespace Token

/-- Tokens end at their first end mark. -/
theorem endPosition_append_finish {front : List Token} {mark : Token}
    (hfront : ∀ t ∈ front, t.kind ≠ .finish) (hmark : mark.kind = .finish) (rest : List Token) :
    endPosition (front ++ mark :: rest) = mark.position := by
  have hnone : front.find? (fun t => t.kind = .finish) = none :=
    List.find?_eq_none.mpr (by simpa using hfront)
  rw [endPosition, List.find?_append, hnone, List.find?_cons_of_pos (by simpa using hmark)]
  rfl

theorem body_append_of_forall {front : List Token} (hfront : ∀ t ∈ front, t.kind ≠ .finish)
    (rest : List Token) : body (front ++ rest) = front ++ body rest := by
  unfold body
  exact List.takeWhile_append_of_pos (by simpa using hfront)

theorem body_append_finish {front : List Token} {mark : Token}
    (hfront : ∀ t ∈ front, t.kind ≠ .finish) (hmark : mark.kind = .finish) (rest : List Token) :
    body (front ++ mark :: rest) = front := by
  rw [body_append_of_forall hfront]
  simp [body, hmark]

end Token

namespace Scan

variable {limit : Nat} {position : Int} {s s' : State} {xs ys tokens : List Token} {t : Token}
  {e : SyntaxError}

/-- What a step does: it completes an operand, opens a group, makes an operand due after an
operator, or closes a group. -/
theorem State.step_eq_ok (h : s.step limit t = .ok s') :
    (∃ after, s.mode = .due after ∧ ((∃ value, t.kind = .literal value) ∨ t.kind = .var) ∧
      s' = ⟨.complete, s.opened⟩) ∨
    (∃ after, s.mode = .due after ∧ t.kind = .opening ∧ s.opened.length < limit ∧
      s' = ⟨.due none, t :: s.opened⟩) ∨
    (s.mode = .complete ∧ (∃ op, t.kind = .operator op) ∧ s' = ⟨.due (some t), s.opened⟩) ∨
    (s.mode = .complete ∧ t.kind = .closing ∧
      ∃ paren outer, s.opened = paren :: outer ∧ s' = ⟨.complete, outer⟩) := by
  unfold State.step at h
  split at h
  · rename_i after value hmode ht
    exact Or.inl ⟨after, hmode, Or.inl ⟨value, ht⟩, (Except.ok.inj h).symm⟩
  · rename_i after hmode ht
    exact Or.inl ⟨after, hmode, Or.inr ht, (Except.ok.inj h).symm⟩
  · rename_i after hmode ht
    split at h
    · cases h
    · exact Or.inr (Or.inl ⟨after, hmode, ht, by omega, (Except.ok.inj h).symm⟩)
  · cases h
  · cases h
  · rename_i op hmode ht
    exact Or.inr (Or.inr (Or.inl ⟨hmode, ⟨op, ht⟩, (Except.ok.inj h).symm⟩))
  · rename_i hmode ht
    split at h
    · cases h
    · rename_i paren outer hopened
      exact Or.inr (Or.inr (Or.inr ⟨hmode, ht, paren, outer, hopened, (Except.ok.inj h).symm⟩))
  · split at h <;> cases h

/-- Why a step fails. -/
theorem State.step_eq_error (h : s.step limit t = .error e) :
    ((∃ after, s.mode = .due after) ∧ t.kind = .opening ∧ limit ≤ s.opened.length ∧
      e = .nestingTooDeep t.position limit) ∨
    (∃ op, s.mode = .due (some op) ∧ t.kind = .closing ∧
      e = .missingOperand op.position op.text) ∨
    (s.opened = [] ∧ t.kind = .closing ∧ e = .unmatchedParen t.position ")") ∨
    (∃ wanted, e = .unexpectedToken t.position t.text wanted) ∨
    e = .trailingInput t.position t.text := by
  unfold State.step at h
  split at h
  · cases h
  · cases h
  · rename_i after hmode ht
    split at h
    · rename_i hfull
      exact Or.inl ⟨⟨after, hmode⟩, ht, hfull, (Except.error.inj h).symm⟩
    · cases h
  · rename_i op hmode ht
    exact Or.inr (Or.inl ⟨op, hmode, ht, (Except.error.inj h).symm⟩)
  · exact Or.inr (Or.inr (Or.inr (Or.inl ⟨_, (Except.error.inj h).symm⟩)))
  · cases h
  · rename_i hmode ht
    split at h
    · rename_i hopened
      exact Or.inr (Or.inr (Or.inl ⟨hopened, ht, (Except.error.inj h).symm⟩))
    · cases h
  · split at h
    · exact Or.inr (Or.inr (Or.inr (Or.inr (Except.error.inj h).symm)))
    · exact Or.inr (Or.inr (Or.inr (Or.inl ⟨_, (Except.error.inj h).symm⟩)))

/-- Why tokens end too early. -/
theorem State.finish_eq_error (h : s.finish position = .error e) :
    (∃ op, s.mode = .due (some op) ∧ e = .missingOperand op.position op.text) ∨
    (s.mode = .due none ∧ s.opened = [] ∧ e = .emptyExpression position) ∨
    (∃ paren outer, s.opened = paren :: outer ∧ e = .unmatchedParen paren.position "(") := by
  unfold State.finish at h
  split at h
  · rename_i op hmode
    exact Or.inl ⟨op, hmode, (Except.error.inj h).symm⟩
  · rename_i hmode hopened
    exact Or.inr (Or.inl ⟨hmode, hopened, (Except.error.inj h).symm⟩)
  · cases h
  · rename_i paren outer hopened _
    exact Or.inr (Or.inr ⟨paren, outer, hopened, (Except.error.inj h).symm⟩)

theorem conclude_append (h : xs.foldlM (State.step limit) s = .ok s') :
    conclude limit position s (xs ++ ys) = conclude limit position s' ys := by
  rw [conclude, List.foldlM_append, h]
  rfl

/-- A scan that fails does so at some token, or when the tokens are at their end. -/
theorem conclude_eq_error (h : conclude limit position s tokens = .error e) :
    (∃ front t back s', tokens = front ++ t :: back ∧
      front.foldlM (State.step limit) s = .ok s' ∧ s'.step limit t = .error e) ∨
    ∃ s', tokens.foldlM (State.step limit) s = .ok s' ∧ s'.finish position = .error e := by
  induction tokens generalizing s with
  | nil => exact Or.inr ⟨s, rfl, h⟩
  | cons t rest ih =>
    cases hstep : s.step limit t with
    | error e' =>
      rw [conclude_stop hstep, Except.error.injEq] at h
      subst h
      exact Or.inl ⟨[], t, rest, s, rfl, rfl, hstep⟩
    | ok next =>
      rw [conclude_step hstep] at h
      have hcons : ∀ more : List Token,
          (t :: more).foldlM (State.step limit) s = more.foldlM (State.step limit) next := by
        intro more
        rw [List.foldlM_cons, hstep]
        rfl
      rcases ih h with ⟨front, u, back, s', rfl, hfront, hstop⟩ | ⟨s', hall, hstop⟩
      · exact Or.inl ⟨t :: front, u, back, s', rfl, (hcons front).trans hfront, hstop⟩
      · exact Or.inr ⟨s', (hcons rest).trans hall, hstop⟩

def closers (n : Nat) : List Token := List.replicate n ⟨.closing, 0, ")"⟩

def State.completion (s : State) : List Token :=
  match s.mode with
  | .due _ => ⟨.literal true, 0, "1"⟩ :: closers s.opened.length
  | .complete => closers s.opened.length

theorem conclude_closers (limit : Nat) (position : Int) (opened : List Token) :
    conclude limit position ⟨.complete, opened⟩ (closers opened.length) = .ok () := by
  induction opened with
  | nil => rfl
  | cons paren outer ih =>
    rw [List.length_cons, closers, List.replicate_succ]
    exact (conclude_step (by simp [State.step])).trans ih

theorem conclude_completion (limit : Nat) (position : Int) (s : State) :
    conclude limit position s s.completion = .ok () := by
  obtain ⟨mode, opened⟩ := s
  cases mode with
  | due after => exact (conclude_step (by simp [State.step])).trans (conclude_closers _ _ opened)
  | complete => exact conclude_closers _ _ opened

theorem State.completion_ne_finish (s : State) : ∀ t ∈ s.completion, t.kind ≠ .finish := by
  have hclosers : ∀ t ∈ closers s.opened.length, t.kind ≠ .finish := by
    intro t ht
    rw [List.eq_of_mem_replicate ht]
    simp
  intro t ht
  obtain ⟨mode, opened⟩ := s
  cases mode with
  | due after =>
    rcases List.mem_cons.mp ht with rfl | ht
    · simp
    · exact hclosers t ht
  | complete => exact hclosers t ht

end Scan

namespace Expr

open Scan

variable {limit : NestingLimit} {tokens front rest : List Token} {mark : Token} {e : SyntaxError}

theorem ofTokens_eq_error_iff :
    ofTokens limit tokens = .error e ↔
      conclude limit.value (Token.endPosition tokens) .start (Token.body tokens) = .error e := by
  rw [conclude_ofTokens]
  cases ofTokens limit tokens <;> simp [Except.map]

theorem exists_ofTokens_eq_ok
    (h : conclude limit.value (Token.endPosition tokens) .start (Token.body tokens) = .ok ()) :
    ∃ tree, ofTokens limit tokens = .ok tree := by
  rw [conclude_ofTokens, Outcome.map_eq_ok] at h
  obtain ⟨tree, htree, -⟩ := h
  exact ⟨tree, htree⟩

/-- Tokens that the scan goes through begin an expression. -/
theorem exists_continuation {s : State} (hfront : ∀ t ∈ front, t.kind ≠ .finish)
    (h : front.foldlM (State.step limit.value) .start = .ok s) :
    ∃ rest tree, ofTokens limit (front ++ rest) = .ok tree := by
  refine ⟨s.completion, exists_ofTokens_eq_ok ?_⟩
  have hbody : Token.body s.completion = s.completion := by
    simpa [Token.body] using Token.body_append_of_forall s.completion_ne_finish []
  rw [Token.body_append_of_forall hfront, hbody, conclude_append h]
  exact conclude_completion _ _ s

/-- The scan stops at a token whatever follows it. -/
theorem ofTokens_stop {s : State} {t : Token} (hfront : ∀ t ∈ front, t.kind ≠ .finish)
    (ht : t.kind ≠ .finish) (h : front.foldlM (State.step limit.value) .start = .ok s)
    (hstop : s.step limit.value t = .error e) (rest : List Token) :
    ofTokens limit (front ++ t :: rest) = .error e := by
  rw [ofTokens_eq_error_iff, Token.body_append_of_forall hfront, Token.body_cons ht,
    conclude_append h]
  exact conclude_stop hstop

/-- Nothing after an end mark matters. -/
theorem ofTokens_append_finish (hfront : ∀ t ∈ front, t.kind ≠ .finish)
    (hmark : mark.kind = .finish) (h : ofTokens limit (front ++ [mark]) = .error e)
    (rest : List Token) : ofTokens limit (front ++ mark :: rest) = .error e := by
  rw [ofTokens_eq_error_iff, Token.endPosition_append_finish hfront hmark,
    Token.body_append_finish hfront hmark] at h ⊢
  exact h

/-- Where tokens become hopeless. -/
theorem exists_stop (hfront : ∀ t ∈ front, t.kind ≠ .finish) (hmark : mark.kind = .finish)
    (h : ofTokens limit (front ++ [mark]) = .error e) :
    ∃ k < (front ++ [mark]).length,
      (∃ rest tree, ofTokens limit ((front ++ [mark]).take k ++ rest) = .ok tree) ∧
      ∀ rest, ofTokens limit ((front ++ [mark]).take (k + 1) ++ rest) = .error e := by
  have hscan := ofTokens_eq_error_iff.mp h
  rw [Token.body_append_finish hfront hmark] at hscan
  rcases conclude_eq_error hscan with ⟨xs, t, ys, s, rfl, hxs, hstop⟩ | ⟨s, hall, -⟩
  · have hclear : ∀ u ∈ xs, u.kind ≠ .finish := fun u hu => hfront u (by simp [hu])
    refine ⟨xs.length, by simp, ?_, ?_⟩
    · rw [List.append_assoc, List.take_left]
      exact exists_continuation hclear hxs
    · intro rest
      have htake : (xs ++ t :: ys ++ [mark]).take (xs.length + 1) = xs ++ [t] := by
        simp [List.take_append, List.take_of_length_le (Nat.le_succ xs.length)]
      rw [htake, List.append_assoc]
      exact ofTokens_stop hclear (hfront t (by simp)) hxs hstop rest
  -- the scan goes through all tokens, so it is the end mark that cannot stand where it does
  · refine ⟨front.length, by simp, ?_, ?_⟩
    · rw [List.take_left]
      exact exists_continuation hfront hall
    · intro rest
      have htake : (front ++ [mark]).take (front.length + 1) = front ++ [mark] :=
        List.take_of_length_le (by simp)
      rw [htake, List.append_assoc]
      exact ofTokens_append_finish hfront hmark h rest

/-- Under a limit that has a meaning, reading tokens is the same as under that limit. -/
theorem readTokens_of_limit {maxDepth : Int}
    (h : NestingLimit.ofInt "max_depth" maxDepth = .ok limit) (tokens : List Token) :
    readTokens maxDepth tokens =
      (ofTokens limit tokens).mapError fun e => .refused (.malformed e) := by
  rw [readTokens, h]
  rfl

/-- Tokens are refused for what they are only under a limit that has a meaning. -/
theorem exists_limit_of_refused {maxDepth : Int} {e : ExprError}
    (h : readTokens maxDepth tokens = .error (.refused e)) :
    ∃ limit e', NestingLimit.ofInt "max_depth" maxDepth = .ok limit ∧ e = .malformed e' ∧
      ofTokens limit tokens = .error e' := by
  cases hlimit : NestingLimit.ofInt "max_depth" maxDepth with
  | error range =>
    rw [readTokens, hlimit] at h
    cases h
  | ok limit =>
    rw [readTokens_of_limit hlimit] at h
    cases hread : ofTokens limit tokens with
    | ok tree =>
      rw [hread] at h
      cases h
    | error e' =>
      rw [hread, Outcome.mapError_error] at h
      cases h
      exact ⟨limit, e', rfl, rfl, hread⟩

/-- The token at index `k` makes the tokens hopeless: those before it can be continued to an
expression, whereas all that begins with those up to it is refused for the same reason. -/
structure Offends (maxDepth : Int) (tokens : List Token) (e : ReadError) (k : Nat) : Prop where
  completable : ∃ rest tree, readTokens maxDepth (tokens.take k ++ rest) = .ok tree
  hopeless : ∀ rest, readTokens maxDepth (tokens.take (k + 1) ++ rest) = .error e

theorem Offends.not_lt {maxDepth : Int} {e e' : ReadError} {j k : Nat}
    (hj : Offends maxDepth tokens e j) (hk : Offends maxDepth tokens e' k) : ¬j < k := by
  intro hlt
  -- what can be continued before `k` begins with all that is hopeless from `j` on
  obtain ⟨rest, tree, hread⟩ := hk.completable
  have hsplit :
      tokens.take k = tokens.take (j + 1) ++ (tokens.drop (j + 1)).take (k - (j + 1)) := by
    rw [← List.take_add]
    congr 1
    omega
  rw [hsplit, List.append_assoc, hj.hopeless] at hread
  cases hread

/-- Tokens that are refused under whatever limit, with the end mark last, become hopeless at exactly
one of them. A limit without a meaning refuses no tokens: it is refused itself. -/
theorem existsUnique_offends {maxDepth : Int} {e : ExprError}
    (hfront : ∀ t ∈ front, t.kind ≠ .finish) (hmark : mark.kind = .finish)
    (h : readTokens maxDepth (front ++ [mark]) = .error (.refused e)) :
    ∃ k < (front ++ [mark]).length, Offends maxDepth (front ++ [mark]) (.refused e) k ∧
      ∀ j, Offends maxDepth (front ++ [mark]) (.refused e) j → j = k := by
  obtain ⟨limit, e', hlimit, rfl, hread⟩ := exists_limit_of_refused h
  obtain ⟨k, hk, ⟨rest, tree, hcomplete⟩, hstop⟩ := exists_stop hfront hmark hread
  have hoffends : Offends maxDepth (front ++ [mark]) (.refused (.malformed e')) k := by
    constructor
    · refine ⟨rest, tree, ?_⟩
      rw [readTokens_of_limit hlimit, hcomplete]
      rfl
    · intro more
      rw [readTokens_of_limit hlimit, hstop]
      rfl
  refine ⟨k, hk, hoffends, fun j hj => ?_⟩
  have hle : ¬k < j := hoffends.not_lt hj
  have hge : ¬j < k := hj.not_lt hoffends
  omega

/-- The operator is what the failure names, but the tokens are hopeless only where they end. -/
theorem offends_after_operator :
    readTokens 1 ([⟨.var, 0, "a"⟩, ⟨.operator .or, 2, "OR"⟩] ++ [⟨.finish, 4, ""⟩]) =
      .error (.refused (.malformed (.missingOperand 2 "OR"))) ∧
    ∃ k < 3, Offends 1 ([⟨.var, 0, "a"⟩, ⟨.operator .or, 2, "OR"⟩] ++ [⟨.finish, 4, ""⟩])
      (.refused (.malformed (.missingOperand 2 "OR"))) k := by
  have h : readTokens 1 ([⟨.var, 0, "a"⟩, ⟨.operator .or, 2, "OR"⟩] ++ [⟨.finish, 4, ""⟩]) =
      .error (.refused (.malformed (.missingOperand 2 "OR"))) := by with_unfolding_all rfl
  obtain ⟨k, hk, hoffends, -⟩ := existsUnique_offends (by decide) rfl h
  exact ⟨h, k, hk, hoffends⟩

end Expr

end BoolExpr
