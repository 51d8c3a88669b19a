import BoolExpr.Proofs.Grammar
import BoolExpr.Proofs.Lexing
import BoolExpr.Proofs.Literals

/-!
Texts in which digits 0 become 1. A digit is a token by itself and never part of a word, so the
tokens of such a text are those of the text before, up to literals; it has the same length and the
same parentheses, so it is read when that is read, as a tree with greater literals.
-/
namespace BoolExpr

def RaisesChar (c c' : Char) : Prop := c' = c ∨ (c = '0' ∧ c' = '1')

def Raises (source source' : String) : Prop :=
  List.Forall₂ RaisesChar source.toList source'.toList

namespace Token

variable {c c' : Char} {p : Nat} {cs cs' word : List Char} {tokens : List Token}

theorem UpToLiterals.refl (t : Token) : t.UpToLiterals (· ≤ ·) t where
  literal := fun value ht => ⟨value, ht, Bool.le_refl value⟩
  kind_eq := fun _ => rfl
  text_eq := fun _ => rfl

/-- A character that is no digit stays what it is. -/
theorem eq_of_raisesChar (h : RaisesChar c c') (hc : c ≠ '0') : c' = c := by
  rcases h with h | ⟨hzero, -⟩
  · exact h
  · exact absurd hzero hc

theorem eq_of_raisesChar_of_isSpace (h : RaisesChar c c') (hc : isSpace c = true) : c' = c := by
  apply eq_of_raisesChar h
  rintro rfl
  exact absurd hc (by decide)

theorem eq_of_raisesChar_of_isLetter (h : RaisesChar c c') (hc : isLetter c = true) : c' = c := by
  apply eq_of_raisesChar h
  rintro rfl
  exact absurd hc (by decide)

theorem not_isLetter_of_raisesChar (h : RaisesChar c c') (hc : ¬isLetter c = true) :
    ¬isLetter c' = true := by
  rcases h with rfl | ⟨-, rfl⟩
  · exact hc
  · decide

/-- A word has no digit to raise. -/
theorem word_eq_of_raises (h : List.Forall₂ RaisesChar word cs')
    (hword : ∀ c ∈ word, isLetter c = true) : cs' = word := by
  induction h with
  | nil => rfl
  | cons hc hrest ih =>
    have hhead := eq_of_raisesChar_of_isLetter hc (hword _ List.mem_cons_self)
    have htail := ih fun c hmem => hword c (List.mem_cons_of_mem _ hmem)
    rw [hhead, htail]

/-- A text with raised digits has the same tokens up to literals. -/
theorem Lexes.exists_of_raises (h : Lexes p cs tokens) (hraises : List.Forall₂ RaisesChar cs cs') :
    ∃ tokens', Lexes p cs' tokens' ∧
      List.Forall₂ (UpToLiterals (· ≤ ·)) (body tokens) (body tokens') := by
  induction h generalizing cs' with
  | finish p =>
    obtain rfl := List.forall₂_nil_left_iff.mp hraises
    exact ⟨_, .finish p, .nil⟩
  | space hc h ih =>
    obtain ⟨c', rest', hraise, hrest, rfl⟩ := List.forall₂_cons_left_iff.mp hraises
    obtain rfl := eq_of_raisesChar_of_isSpace hraise hc
    obtain ⟨tokens', hlexes, hbody⟩ := ih hrest
    exact ⟨tokens', .space hc hlexes, hbody⟩
  | @mark p c kind rest tokens hc h ih =>
    obtain ⟨c', rest', hraise, hrest, rfl⟩ := List.forall₂_cons_left_iff.mp hraises
    obtain ⟨tokens', hlexes, hbody⟩ := ih hrest
    rcases hraise with rfl | ⟨rfl, rfl⟩
    · refine ⟨_, .mark hc hlexes, ?_⟩
      rw [body_cons_mark hc, body_cons_mark hc]
      exact .cons (.refl _) hbody
    · obtain rfl : .literal false = kind := Option.some.inj hc
      have hone : markKind? '1' = some (.literal true) := rfl
      refine ⟨_, .mark hone hlexes, ?_⟩
      rw [body_cons_mark hc, body_cons_mark hone]
      refine .cons ⟨fun value hvalue => ⟨true, rfl, Bool.le_true value⟩, ?_, nofun⟩ hbody
      exact fun hnone => absurd rfl (hnone false)
  | @word p word rest token tokens hne hword hrest htoken h ih =>
    obtain ⟨_, rest', rfl, hfront, hback⟩ := exists_append_of_forall₂ hraises
    obtain rfl := word_eq_of_raises hfront hword
    obtain ⟨tokens', hlexes, hbody⟩ := ih hback
    have hrest' : ∀ c ∈ rest'.head?, ¬isLetter c = true := by
      cases hback with
      | nil => exact hrest
      | cons hc _ =>
        rintro c ⟨⟩
        exact not_isLetter_of_raisesChar hc (hrest _ rfl)
    refine ⟨_, .word hne hword hrest' htoken hlexes, ?_⟩
    rw [body_cons_word htoken, body_cons_word htoken]
    exact .cons (.refl _) hbody

end Token

namespace Bindings

/-- The values of the second map are no less, for any of the names, all of which have values. -/
def LeOn (names : NameSet) (b b' : Bindings) : Prop :=
  ∀ name ∈ names, ∃ value value' : Bool,
    b.find? name = some value ∧ b'.find? name = some value' ∧ value ≤ value'

variable {names : NameSet} {b b' : Bindings}

theorem LeOn.contains_left (h : b.LeOn names b') : ∀ name ∈ names, b.contains name = true := by
  intro name hname
  obtain ⟨value, value', hvalue, -, -⟩ := h name hname
  rw [contains, hvalue]
  rfl

theorem LeOn.contains_right (h : b.LeOn names b') : ∀ name ∈ names, b'.contains name = true := by
  intro name hname
  obtain ⟨value, value', -, hvalue', -⟩ := h name hname
  rw [contains, hvalue']
  rfl

theorem LeOn.refl_of_contains (h : ∀ name ∈ names, b.contains name = true) :
    b.LeOn names b := by
  intro name hname
  obtain ⟨value, hvalue⟩ := Option.isSome_iff_exists.mp (h name hname)
  exact ⟨value, value, hvalue, hvalue, Bool.le_refl value⟩

end Bindings

/-- Under a greater map a tree with greater literals has no lesser value. -/
theorem Expr.UpToLiterals.evaluate_le {e e' : Expr} {b b' : Bindings}
    (h : e.UpToLiterals (· ≤ ·) e') (hb : b.LeOn e.vars b') :
    ∃ value value' : Bool, e.evaluate b = .ok value ∧ e'.evaluate b' = .ok value' ∧
      value ≤ value' := by
  have hright : ∀ name ∈ e'.vars, b'.contains name = true := by
    rw [vars, ← h.names_eq]
    exact hb.contains_right
  refine ⟨_, _, evaluate_of_contains hb.contains_left, evaluate_of_contains hright, h.truth_le ?_⟩
  intro name hname
  obtain ⟨value, value', hvalue, hvalue', hle⟩ := hb name (mem_vars.mpr hname)
  rw [hvalue, hvalue']
  exact hle

namespace Engine

variable {engine : Engine} {source source' : String} {e : Expr}

/-- A text with raised digits is read as the same tree up to literals, and those are greater. -/
theorem exists_parse_of_raises (h : engine.parse source = .ok e) (hraises : Raises source source') :
    ∃ e', engine.parse source' = .ok e' ∧ e.UpToLiterals (· ≤ ·) e' := by
  obtain ⟨hadmits, tokens, hlex, hread⟩ := parse_eq_ok_iff.mp h
  obtain ⟨tokens', hlexes', hbody⟩ := (Token.lexes_of_lexFrom hlex).exists_of_raises hraises
  obtain ⟨d, hyield, rfl, hdepth⟩ := Grammar.exists_derivation_of_ofTokens hread
  rw [← hyield] at hbody
  obtain ⟨d', hyield', htree, hdepth'⟩ := d.exists_of_upToLiterals hbody
  have hlength : source.length = source'.length := by
    rw [← String.length_toList, ← String.length_toList]
    exact hraises.length_eq
  have hread' := Grammar.ofTokens_of_derivation d' hyield' (hdepth' ▸ hdepth)
  refine ⟨d'.tree, parse_eq_ok_iff.mpr ⟨hlength ▸ hadmits, tokens', ?_, hread'⟩, htree⟩
  exact Token.lexFrom_of_lexes hlexes'

end Engine

end BoolExpr
