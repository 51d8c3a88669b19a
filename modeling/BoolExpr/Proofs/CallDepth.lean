import BoolExpr.Proofs.Cursor

/-!
How deep the calls of reading go. A reader by place is given a supply of calls, of which it takes
one wherever it goes one function deeper, and which it has back on return. The limit on nesting
alone says how many are enough: four calls lead from one parenthesis to the next, four more come
before the first operand, and one is needed at a parenthesis that is one too many. Tokens that are
nothing but opening parentheses need all of them.
-/
namespace BoolExpr.Cursor

variable {tokens rest : List Token} {s : Cursor} {after : Option Token} {limit calls levels : Nat}
  {op : Op}

theorem chain_error {reader : Reader} {h : Halt} (hreader : reader after s = .error h) :
    chain tokens op reader after s = .error h := by
  rw [chain, hreader]
  rfl

/-- A disjunction is out of calls where its first operand is, two calls further on. -/
theorem disjunction_noCallLeft
    (h : ∀ c, calls = c + 2 → operand tokens limit c none s = .error (.fault .noCallLeft)) :
    disjunction tokens limit calls s = .error (.fault .noCallLeft) := by
  match calls with
  | 0 => rfl
  | 1 => exact chain_error rfl
  | c + 2 =>
    rw [disjunction]
    refine chain_error ?_
    rw [conjunction]
    exact chain_error (h c rfl)

/-- At an opening parenthesis an operand is what a group is, one call further on. -/
theorem operand_opening {t : Token} (hs : Stands tokens s (t :: rest)) (ht : t.kind = .opening) :
    operand tokens limit (calls + 1) after s = group tokens limit calls s := by
  rw [operand, if_pos hs.opened_eq]
  simp [operandBy, hs.peek_next, ht, bind, Except.bind]

/-- Where parentheses are opened until one is too many, each of those that may still be opened takes
four calls, and the last one two. -/
theorem operand_noCallLeft (hs : Stands tokens s rest) (hrest : ∀ t ∈ rest, t.kind = .opening)
    (hlength : levels < rest.length) (hlevels : levels + s.opened.length = limit)
    (hcalls : calls < 4 * levels + 2) :
    operand tokens limit calls after s = .error (.fault .noCallLeft) := by
  induction levels generalizing s after rest calls with
  | zero =>
    obtain ⟨t, rest, rfl⟩ := List.exists_cons_of_length_pos hlength
    match calls with
    | 0 => rfl
    | 1 =>
      rw [operand_opening hs (hrest t (by simp))]
      rfl
  | succ levels ih =>
    obtain ⟨t, rest, rfl⟩ := List.exists_cons_of_length_pos (Nat.zero_lt_of_lt hlength)
    have ht : t.kind = .opening := hrest t (by simp)
    match calls with
    | 0 => rfl
    | 1 =>
      rw [operand_opening hs ht]
      rfl
    | calls + 2 =>
      have hpushed : Token.openAfter s.opened t = t :: s.opened := by simp [Token.openAfter, ht]
      have hnext := hs.next
      rw [hpushed] at hnext
      simp only [List.length_cons] at hlength
      have hbody : disjunction tokens limit calls ⟨s.place + 1, t :: s.opened⟩ =
          .error (.fault .noCallLeft) := by
        refine disjunction_noCallLeft fun c hc => ?_
        refine ih hnext (fun u hu => hrest u (by simp [hu])) (by omega) ?_ (by omega)
        simp only [List.length_cons]
        omega
      rw [operand_opening hs ht, group_of_room hs (by omega), hbody]
      rfl

/-- Tokens that begin with no end mark are read by a disjunction, one call further on. -/
theorem parse_cons {t : Token} (hs : Stands tokens start (t :: rest)) :
    parse tokens limit (calls + 1) = (do
      let whole ← disjunction tokens limit calls start
      conclude tokens whole) := by
  rw [parse, hs.peek_next]
  exact if_neg (hs.ordinary t (by simp))

def openings (n : Nat) : List Token := List.replicate n ⟨.opening, 0, "("⟩

theorem kind_of_mem_openings {n : Nat} {t : Token} (h : t ∈ openings n) : t.kind = .opening := by
  rw [List.eq_of_mem_replicate h]

theorem body_openings (n : Nat) : Token.body (openings n) = openings n := by
  have happend := Token.body_append_of_forall
    (fun t ht => by rw [kind_of_mem_openings (n := n) ht]; exact Token.Kind.noConfusion) []
  simpa [Token.body] using happend

theorem parse_openings (hcalls : calls < 4 * limit + 5) :
    parse (Token.marked (openings (limit + 1))) limit calls = .error (.fault .noCallLeft) := by
  obtain ⟨mark, more, hmark, -, hmarked⟩ := exists_marked (openings (limit + 1))
  rw [body_openings] at hmarked
  have hstart : Stands (Token.marked (openings (limit + 1))) start (openings (limit + 1)) :=
    ⟨⟨mark, more, hmark, hmarked⟩,
      fun t ht => by rw [kind_of_mem_openings ht]; exact Token.Kind.noConfusion, rfl⟩
  match calls with
  | 0 => rfl
  | calls + 1 =>
    have hdisjunction : disjunction (Token.marked (openings (limit + 1))) limit calls start =
        .error (.fault .noCallLeft) :=
      disjunction_noCallLeft fun c hc =>
        operand_noCallLeft hstart (fun t ht => kind_of_mem_openings ht) (by simp [openings]) rfl
          (by omega)
    have hfirst : Stands (Token.marked (openings (limit + 1))) start
        (⟨.opening, 0, "("⟩ :: openings limit) := hstart
    rw [parse_cons hfirst, hdisjunction]
    rfl

/-- The calls of reading are bounded by the limit on nesting, whatever the tokens are and however
many. With four calls for each parenthesis that may be open and five more, or with any larger
supply, none is ever lacking, and what comes out is what reading without a supply returns. For each
limit there are tokens that lack a call under every smaller supply. -/
theorem parse_calls (limit : NestingLimit) :
    (∀ (tokens : List Token) (spare : Nat),
      parse (Token.marked tokens) limit.value (4 * limit.value + 5 + spare) =
        (Expr.ofTokens limit tokens).mapError Halt.malformed) ∧
    ∃ tokens, ∀ calls, parse (Token.marked tokens) limit.value calls = .error (.fault .noCallLeft) ↔
      calls < 4 * limit.value + 5 := by
  refine ⟨fun tokens spare => parse_marked limit tokens (Nat.le_add_right _ spare),
    openings (limit.value + 1), fun calls => ⟨fun hlack => ?_, parse_openings⟩⟩
  refine Nat.lt_of_not_le fun henough => ?_
  rw [parse_marked limit _ henough] at hlack
  cases hread : Expr.ofTokens limit (openings (limit.value + 1)) with
  | ok e =>
    rw [hread] at hlack
    cases hlack
  | error e =>
    rw [hread, Outcome.mapError_error] at hlack
    cases hlack

end BoolExpr.Cursor
