import BoolExpr.Proofs.Correspondence
import BoolExpr.Proofs.Evaluation
import BoolExpr.Proofs.Stop

/-!
Tokens at other positions and with other texts. Reading takes from a token its kind, and copies its
position and its text into what it returns without looking at them. So it commutes with any change
of positions and any change of texts, be it one that makes different names equal. A fold looks names
up and does no more with them, so renaming in the tree is the same to it as renaming before the
look-up.
-/
namespace BoolExpr

def Token.relabel (f : Int → Int) (g : String → String) (t : Token) : Token :=
  ⟨t.kind, f t.position, g t.text⟩

/-- The failure at another position. What it quotes from a token is changed, what it says in words
of its own is not. -/
def SyntaxError.relabel (f : Int → Int) (g : String → String) : SyntaxError → SyntaxError
  | .emptyExpression position => .emptyExpression (f position)
  | .unexpectedToken position found expected => .unexpectedToken (f position) (g found) expected
  | .missingOperand position operator => .missingOperand (f position) (g operator)
  | .unmatchedParen position paren => .unmatchedParen (f position) paren
  | .trailingInput position found => .trailingInput (f position) (g found)
  | .nestingTooDeep position limit => .nestingTooDeep (f position) limit
  | .stated position message => .stated (f position) message

namespace Expr

/-- The same change of a failure that lies in the tokens; a limit without a meaning has nothing to
do with them. -/
def ReadError.relabel (f : Int → Int) (g : String → String) : ReadError → ReadError
  | .refused (.malformed e) => .refused (.malformed (e.relabel f g))
  | other => other

def rename (g : String → String) : Expr → Expr
  | .literal value => .literal value
  | .var name => .var (g name)
  | .binary op left right => .binary op (left.rename g) (right.rename g)

def FoldError.rename (g : String → String) : FoldError → FoldError
  | .unknownName name => .unknownName (g name)
  | .missingOperand => .missingOperand

variable {f : Int → Int} {g : String → String} {e e' : Expr}

theorem names_rename (g : String → String) (e : Expr) : (e.rename g).names = e.names.map g := by
  induction e with
  | literal value => rfl
  | var name => rfl
  | binary op left right ihl ihr => rw [rename, names, names, ihl, ihr, List.map_append]

theorem eval_rename (g : String → String) (lookup : String → Option Bool) (e : Expr) :
    (e.rename g).eval lookup = (e.eval fun name => lookup (g name)).mapError g := by
  induction e with
  | literal value => rfl
  | var name =>
    simp only [rename, eval]
    cases lookup (g name) <;> rfl
  | binary op left right ihl ihr =>
    rw [rename, eval, eval, ihl, ihr]
    cases left.eval fun name => lookup (g name) with
    | error name => rfl
    | ok a => cases right.eval fun name => lookup (g name) <;> rfl

/-- A fold cannot tell names in a tree that are changed from names that are changed when they are
looked up, but for the name that it reports. -/
theorem fold_rename (g : String → String) (lookup : String → Option Bool) (e : Expr) :
    (e.rename g).fold lookup =
      (e.fold fun name => lookup (g name)).mapError (FoldError.rename g) := by
  rw [fold_eq_eval, fold_eq_eval, eval_rename]
  cases e.eval fun name => lookup (g name) <;> rfl

theorem exists_fold_rename {b : Bindings} (h : ∀ name ∈ (e.rename g).names, name ∈ b.names) :
    ∃ value, (e.rename g).fold b.find? = .ok value ∧
      e.fold (fun name => b.find? (g name)) = .ok value := by
  have hfound : ∀ name ∈ e.names, (b.find? (g name)).isSome = true := by
    intro name hname
    refine (b.contains_iff _).mpr (h _ ?_)
    rw [names_rename]
    exact List.mem_map_of_mem hname
  obtain ⟨value, hvalue⟩ := e.eval_isOk_of_names (fun name => b.find? (g name)) hfound
  have hfold : e.fold (fun name => b.find? (g name)) = .ok value := by
    rw [fold_eq_eval, hvalue]
    rfl
  refine ⟨value, ?_, hfold⟩
  rw [fold_rename, hfold]
  rfl

theorem Corresponds.eq_rename (h : e.Corresponds (fun t t' => t' = t.relabel f g) e') :
    e' = e.rename g := by
  induction h with
  | literal value => rfl
  | var h =>
    rw [h]
    rfl
  | binary op hleft hright ihl ihr => rw [ihl, ihr, rename]

end Expr

theorem SyntaxError.Corresponds.eq_relabel {f : Int → Int} {g : String → String}
    {e e' : SyntaxError} (h : e.Corresponds (fun t t' => t' = t.relabel f g) e') :
    e' = e.relabel f g := by
  cases h with
  | emptyExpression h => exact h ▸ rfl
  | unexpectedToken h expected => exact h ▸ rfl
  | missingOperand h => exact h ▸ rfl
  | unmatchedParen h paren => exact h ▸ rfl
  | trailingInput h => exact h ▸ rfl
  | nestingTooDeep h limit => exact h ▸ rfl

namespace Expr

variable {tokens : List Token} {mark : Token}

theorem ofTokens_relabel (hmark : ∃ t ∈ tokens, t.kind = .finish) (limit : NestingLimit)
    (f : Int → Int) (g : String → String) :
    ofTokens limit (tokens.map (Token.relabel f g)) =
      ((ofTokens limit tokens).map (rename g)).mapError (SyntaxError.relabel f g) := by
  have hrelated : List.Forall₂ (fun t t' => t' = t.relabel f g) tokens
      (tokens.map (Token.relabel f g)) := by
    rw [List.forall₂_map_right_iff, List.forall₂_same]
    exact fun t _ => rfl
  have hkind : ∀ t t' : Token, t' = t.relabel f g → t.kind = t'.kind := by
    rintro t _ rfl
    rfl
  rcases (ofTokens_corresponds hkind hrelated hmark limit).ok_or_error with
    ⟨e, e', he, he', htree⟩ | ⟨e, e', he, he', hfailure⟩
  · rw [he, he', htree.eq_rename]
    rfl
  · rw [he, he', hfailure.eq_relabel]
    rfl

/-- Reading decides by the kinds of tokens alone. Where tokens with an end mark last are moved and
given other texts in whatever way, what is read from them is the same tree with the texts changed,
or the same failure with its position and what it quotes changed; and the fold of a tree with
changed names, all of which have values, is that of the tree itself when each name has the value of
what it is changed to. -/
theorem readTokens_relabel (hlast : tokens.getLast? = some mark) (hmark : mark.kind = .finish)
    (maxDepth : Int) (f : Int → Int) (g : String → String) :
    readTokens maxDepth (tokens.map (Token.relabel f g)) =
        ((readTokens maxDepth tokens).map (rename g)).mapError (ReadError.relabel f g) ∧
      ∀ (e : Expr) (b : Bindings), (∀ name ∈ (e.rename g).names, name ∈ b.names) →
        ∃ value, (e.rename g).fold b.find? = .ok value ∧
          e.fold (fun name => b.find? (g name)) = .ok value := by
  refine ⟨?_, fun e b h => exists_fold_rename h⟩
  cases hlimit : NestingLimit.ofInt "max_depth" maxDepth with
  | error range =>
    rw [readTokens, readTokens, hlimit]
    rfl
  | ok limit =>
    rw [readTokens_of_limit hlimit, readTokens_of_limit hlimit,
      ofTokens_relabel ⟨mark, List.mem_of_getLast? hlast, hmark⟩]
    cases ofTokens limit tokens <;> rfl

/-- Both variables become one, and all tokens are moved to one place. -/
theorem readTokens_relabel_merged :
    readTokens 1 [⟨.var, 0, "z"⟩, ⟨.operator .or, 0, "z"⟩, ⟨.var, 0, "z"⟩, ⟨.finish, 0, "z"⟩] =
        .ok (.binary .or (.var "z") (.var "z")) ∧
      (Expr.binary .or (.var "a") (.var "b")).fold
        (fun _ => Bindings.find? ⟨[("z", true)], by decide⟩ "z") = .ok true := by
  have hlast : List.getLast?
      [⟨.var, 0, "a"⟩, ⟨.operator .or, 2, "OR"⟩, ⟨.var, 5, "b"⟩, ⟨.finish, 6, ""⟩] =
        some (⟨.finish, 6, ""⟩ : Token) := rfl
  obtain ⟨hread, hfold⟩ := readTokens_relabel hlast rfl 1 (fun _ => 0) (fun _ => "z")
  have hplain : readTokens 1
      [⟨.var, 0, "a"⟩, ⟨.operator .or, 2, "OR"⟩, ⟨.var, 5, "b"⟩, ⟨.finish, 6, ""⟩] =
        .ok (.binary .or (.var "a") (.var "b")) := by with_unfolding_all rfl
  rw [hplain] at hread
  obtain ⟨value, hrenamed, hvalue⟩ := hfold (.binary .or (.var "a") (.var "b"))
    ⟨[("z", true)], by decide⟩ (by decide)
  have htrue : (Expr.binary .or (.var "z") (.var "z")).fold
      (Bindings.find? ⟨[("z", true)], by decide⟩) = .ok true := by
    rw [fold_eq_eval]
    rfl
  obtain rfl : true = value := Except.ok.inj (htrue.symm.trans hrenamed)
  exact ⟨hread, hvalue⟩

end Expr

end BoolExpr
