import BoolExpr.Proofs.Lexing

/-!
Texts that are put together. Lexing looks at positions only to report them, so a text that begins
further on has the tokens, or the error, of the same text at the start, moved on by as much. Hence
the tokens of two texts in a row are those of the first without its end mark, and then those of the
second, moved on by the length of the first; an error in either is an error of both, and the first
text comes first. The one thing to be ruled out is a word that runs across the place where they
meet.
-/
namespace BoolExpr

def LexError.moveBy (n : Nat) (e : LexError) : LexError := { e with position := e.position + n }

namespace Token

def moveBy (n : Nat) (t : Token) : Token := { t with position := t.position + n }

variable {p : Nat} {cs : List Char}

def moveOutcome (n : Nat) (outcome : Except LexError (List Token)) : Except LexError (List Token) :=
  (outcome.map (List.map (moveBy n))).mapError (LexError.moveBy n)

theorem ofWord_add (p n : Nat) (word : List Char) :
    ofWord (p + n) word = ((ofWord p word).map (moveBy n)).mapError (LexError.moveBy n) := by
  unfold ofWord
  split
  · rfl
  · split
    · rfl
    · split
      · rfl
      · rfl

/-- A text has the same tokens, or the same error, wherever it begins. -/
theorem lexFrom_add (n p : Nat) (cs : List Char) :
    lexFrom (p + n) cs = moveOutcome n (lexFrom p cs) := by
  induction p, cs using lexFrom.induct with
  | case1 p =>
    rw [lexFrom, lexFrom]
    rfl
  | case2 p c rest hc ih =>
    rw [lexFrom_space hc, lexFrom_space hc, Nat.add_right_comm, ih]
  | case3 p c rest hspace hc _ =>
    rename_i ih
    obtain ⟨hword, hrest, hsplit⟩ := cons_takeWhile hc rest
    have hne : c :: rest.takeWhile isLetter ≠ [] := List.cons_ne_nil _ _
    rw [hsplit, lexFrom_word hne hword hrest, lexFrom_word hne hword hrest, Nat.add_right_comm, ih,
      ofWord_add]
    cases ofWord p (c :: rest.takeWhile isLetter) with
    | error e => rfl
    | ok token =>
      cases lexFrom (p + (c :: rest.takeWhile isLetter).length) (rest.dropWhile isLetter) <;> rfl
  | case4 p c rest hspace hletter kind hkind ih =>
    rw [lexFrom_mark hkind, lexFrom_mark hkind, Nat.add_right_comm, ih]
    cases lexFrom (p + 1) rest <;> rfl
  | case5 p c rest hspace hletter hnone =>
    rw [lexFrom_foreign hspace hletter hnone, lexFrom_foreign hspace hletter hnone]
    rfl

/-- The tokens of two texts, of which neither runs on into the other, are those of the first without
its end mark and those of the second further on. The first error is that of the first text, if it
has one, and else that of the second. -/
theorem lex_append {a b : String} (h : Separate a.toList b.toList) :
    (∀ ts, lex a = .ok ts → ts = body ts ++ [⟨.finish, a.length, ""⟩]) ∧
    lex (a ++ b) =
      match lex a, lex b with
      | .error e, _ => .error e
      | .ok _, .error e => .error (e.moveBy a.length)
      | .ok ts, .ok us => .ok (body ts ++ us.map (moveBy a.length)) := by
  constructor
  · intro ts hts
    have hend := (lexes_of_lexFrom hts).eq_body_append
    rwa [Nat.zero_add, String.length_toList] at hend
  · have hsecond : lexFrom (0 + a.toList.length) b.toList = moveOutcome a.length (lex b) := by
      rw [String.length_toList]
      exact lexFrom_add a.length 0 b.toList
    have hwhole := lexFrom_append (p := 0) h
    rw [hsecond, ← String.toList_append] at hwhole
    change lex (a ++ b) = (do
      let ts ← lex a
      let us ← moveOutcome a.length (lex b)
      return body ts ++ us) at hwhole
    rw [hwhole]
    cases lex a with
    | error e => rfl
    | ok ts => cases lex b <;> rfl

/-- The texts meet at a parenthesis, and the second one fails at its start. -/
theorem lex_append_of_misspelt :
    Separate "x OR(".toList "ANDY".toList ∧
      lex "ANDY" = .error ⟨0, "A", .unknownWord "ANDY"⟩ ∧
      lex ("x OR(" ++ "ANDY") = .error ⟨5, "A", .unknownWord "ANDY"⟩ := by
  have hseparate : Separate "x OR(".toList "ANDY".toList := by
    intro c hc hletter
    obtain rfl : '(' = c := Option.some.inj hc
    exact absurd hletter (by decide)
  have hsecond : lex "ANDY" = .error ⟨0, "A", .unknownWord "ANDY"⟩ := by with_unfolding_all rfl
  refine ⟨hseparate, hsecond, ?_⟩
  obtain ⟨-, happend⟩ := lex_append hseparate
  have hfirst : ∃ ts, lex "x OR(" = .ok ts := ⟨_, by with_unfolding_all rfl⟩
  obtain ⟨ts, hts⟩ := hfirst
  rw [happend, hts, hsecond]
  rfl

end Token

end BoolExpr
