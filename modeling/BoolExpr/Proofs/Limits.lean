import BoolExpr.Proofs.Spelling
import BoolExpr.Proofs.Stop

/-!
What the limits of an engine do. A limit on nesting takes part in one kind of step only, at an
opening parenthesis, where it either refuses or does nothing; so two scans under different limits go
side by side until the smaller limit refuses. The main statement is that limits only refuse: a
larger engine has the outcome of a smaller one wherever that one does not refuse for length or
nesting, and for a text that is an expression the limits that admit it can be read off the text.
-/
namespace BoolExpr

def SameUnlessTooDeep {α : Type} (limit : Nat) (x y : Except SyntaxError α) : Prop :=
  x = y ∨ ∃ p, x = .error (.nestingTooDeep p limit)

namespace Scan

variable {limit limit' : Nat}

/-- A larger limit does not change a step, except where the smaller one refuses a parenthesis. -/
theorem State.step_of_le (h : limit ≤ limit') (s : State) (t : Token) :
    SameUnlessTooDeep limit (s.step limit t) (s.step limit' t) := by
  obtain ⟨mode, opened⟩ := s
  cases mode with
  | complete =>
    left
    cases ht : t.kind <;> simp [State.step, ht]
  | due after =>
    by_cases ht : t.kind = .opening
    · by_cases hroom : opened.length < limit
      · left
        have hroom' : opened.length < limit' := by omega
        rw [State.step_opening after ht hroom, State.step_opening after ht hroom']
      · right
        have hfull : limit ≤ opened.length := by omega
        exact ⟨t.position, by simp [State.step, ht, hfull]⟩
    · left
      cases hkind : t.kind with
      | opening => exact absurd hkind ht
      | _ => cases after <;> simp [State.step, hkind]

theorem conclude_of_le (h : limit ≤ limit') (position : Int) (s : State) (tokens : List Token) :
    SameUnlessTooDeep limit (conclude limit position s tokens)
      (conclude limit' position s tokens) := by
  induction tokens generalizing s with
  | nil => exact Or.inl rfl
  | cons t rest ih =>
    rcases State.step_of_le h s t with hsame | ⟨p, hdeep⟩
    · cases hstep : s.step limit t with
      | ok next =>
        rw [conclude_step hstep, conclude_step (hsame.symm.trans hstep)]
        exact ih next
      | error e =>
        left
        rw [conclude_stop hstep, conclude_stop (hsame.symm.trans hstep)]
    · exact Or.inr ⟨p, conclude_stop hdeep⟩

end Scan

/-- A larger limit on nesting does not change what is read, tree or failure, except where the
smaller one refuses. -/
theorem Expr.ofTokens_of_le {limit limit' : NestingLimit} (h : limit.value ≤ limit'.value)
    (tokens : List Token) :
    SameUnlessTooDeep limit.value (Expr.ofTokens limit tokens) (Expr.ofTokens limit' tokens) := by
  cases hread : Expr.ofTokens limit tokens with
  | ok e =>
    left
    obtain ⟨d, hyield, rfl, hdepth⟩ := Grammar.exists_derivation_of_ofTokens hread
    exact (Grammar.ofTokens_of_derivation d hyield (by omega)).symm
  | error e =>
    have hscan := Expr.ofTokens_eq_error_iff.mp hread
    have hsame := Scan.conclude_of_le h (Token.endPosition tokens) .start (Token.body tokens)
    rw [hscan] at hsame
    rcases hsame with hsame | ⟨p, hdeep⟩
    · exact Or.inl (Expr.ofTokens_eq_error_iff.mpr hsame.symm).symm
    · exact Or.inr ⟨p, congrArg Except.error (Except.error.inj hdeep)⟩

namespace Engine

variable {engine : Engine} {source : String} {tokens : List Token} {e : Expr}

/-- Where one engine reads a tree, another one reads that tree exactly if its limits admit the
length and the nesting of the text. -/
theorem parse_eq_ok_of_parse {other : Engine} (h : other.parse source = .ok e) {e' : Expr} :
    engine.parse source = .ok e' ↔
      e' = e ∧ engine.admits source.length = true ∧
        BoolExpr.nesting source ≤ engine.nesting.value := by
  obtain ⟨depth, -, ⟨x⟩⟩ := exists_spelling_of_parse h
  rw [x.nesting_eq]
  constructor
  · intro hparse
    obtain ⟨depth', hdepth', ⟨y⟩⟩ := exists_spelling_of_parse hparse
    obtain ⟨rfl, rfl⟩ := x.unique y
    exact ⟨rfl, (parse_eq_ok_iff.mp hparse).1, hdepth'⟩
  · rintro ⟨rfl, hadmits, hdepth⟩
    exact parse_of_spelling x hadmits hdepth

/-- Limits only refuse. An engine with larger limits has the same outcome, tree or failure, unless
the smaller one refuses the text for its length or its nesting. And a text that some engine reads is
read by exactly those whose limits admit its length and the depth of its parentheses, as the same
tree by all of them. -/
theorem parse_of_le {small large : Engine} (hnesting : small.nesting.value ≤ large.nesting.value)
    (hlength : ∀ length, small.admits length = true → large.admits length = true)
    (source : String) :
    (small.parse source = large.parse source ∨
      small.parse source = .error (.tooLong source.length small.maxLength) ∨
      ∃ p, small.parse source = .error (.malformed (.nestingTooDeep p small.nesting.value))) ∧
    ∀ (reader : Engine) (e : Expr), reader.parse source = .ok e → ∀ engine : Engine,
      ((∃ e', engine.parse source = .ok e') ↔
        engine.admits source.length = true ∧ BoolExpr.nesting source ≤ engine.nesting.value) ∧
      ∀ e', engine.parse source = .ok e' → e' = e := by
  constructor
  · by_cases hsmall : small.admits source.length = true
    · rw [parse_of_admits hsmall, parse_of_admits (hlength _ hsmall)]
      cases Token.lex source with
      | error e => exact Or.inl rfl
      | ok tokens =>
        show (Expr.ofTokens small.nesting tokens).mapError _ =
            (Expr.ofTokens large.nesting tokens).mapError _ ∨
          (Expr.ofTokens small.nesting tokens).mapError _ = _ ∨
          ∃ p, (Expr.ofTokens small.nesting tokens).mapError _ = _
        rcases Expr.ofTokens_of_le hnesting tokens with hsame | ⟨p, hdeep⟩
        · exact Or.inl (by rw [hsame])
        · exact Or.inr (Or.inr ⟨p, by rw [hdeep]; rfl⟩)
    · exact Or.inr (Or.inl (parse_of_not_admits hsmall))
  · intro reader e h engine
    refine ⟨⟨?_, fun hlimits => ⟨e, (parse_eq_ok_of_parse h).mpr ⟨rfl, hlimits⟩⟩⟩, ?_⟩
    · rintro ⟨e', hparse⟩
      exact ((parse_eq_ok_of_parse h).mp hparse).2
    · intro e' hparse
      exact ((parse_eq_ok_of_parse h).mp hparse).1

/-- A text of as many characters as the smaller engine admits, with as many parentheses open. -/
theorem parse_of_le_at_limits :
    let small : Engine := ⟨3, ⟨1, by decide, by decide⟩⟩
    let large : Engine := ⟨0, ⟨2, by decide, by decide⟩⟩
    small.nesting.value ≤ large.nesting.value ∧
      (∀ length, small.admits length = true → large.admits length = true) ∧
      small.parse "(a)" = large.parse "(a)" ∧ small.parse "(a)" = .ok (.var "a") ∧
      small.admits "(a)".length = true ∧ BoolExpr.nesting "(a)" ≤ 1 := by
  intro small large
  have hnesting : small.nesting.value ≤ large.nesting.value := by decide
  have hlength : ∀ length, small.admits length = true → large.admits length = true :=
    fun _ _ => rfl
  have hparse : small.parse "(a)" = .ok (.var "a") := by with_unfolding_all rfl
  obtain ⟨hsame, haccept⟩ := parse_of_le hnesting hlength "(a)"
  have hlimits := (haccept small (.var "a") hparse small).1.mp ⟨_, hparse⟩
  refine ⟨hnesting, hlength, ?_, hparse, hlimits.1, hlimits.2⟩
  rcases hsame with hsame | hlong | ⟨p, hdeep⟩
  · exact hsame
  · cases (hparse.symm.trans hlong)
  · cases (hparse.symm.trans hdeep)

end Engine

end BoolExpr
