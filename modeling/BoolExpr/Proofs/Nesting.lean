import BoolExpr.Expr.Parser

/-!
Parentheses that are open. The brackets of a text or of a sequence of tokens say how many of them
are open at each place, what the largest such number is, and which operators stand outside all of
them. Cutting tokens at the latter loses nothing but the operators where it cuts.
-/
namespace BoolExpr

inductive Bracket where
  | opening
  | closing
deriving DecidableEq

namespace Bracket

def ofChar? : Char → Option Bracket
  | '(' => some .opening
  | ')' => some .closing
  | _ => none

theorem ofChar?_eq_none {c : Char} (ho : c ≠ '(') (hc : c ≠ ')') : ofChar? c = none := by
  unfold ofChar?
  split
  · exact absurd rfl ho
  · exact absurd rfl hc
  · rfl

def ofToken? (t : Token) : Option Bracket :=
  match t.kind with
  | .opening => some .opening
  | .closing => some .closing
  | _ => none

def after (n : Nat) : Bracket → Nat
  | .opening => n + 1
  | .closing => n - 1

def levelAfter (n : Nat) (brackets : List Bracket) : Nat := brackets.foldl after n

def deepest (n : Nat) : List Bracket → Nat
  | [] => n
  | b :: rest => max n (deepest (b.after n) rest)

theorem levelAfter_append (n : Nat) (xs ys : List Bracket) :
    levelAfter n (xs ++ ys) = levelAfter (levelAfter n xs) ys := List.foldl_append

theorem le_deepest (n : Nat) (brackets : List Bracket) : n ≤ deepest n brackets := by
  cases brackets with
  | nil => exact Nat.le_refl n
  | cons b rest => exact Nat.le_max_left _ _

theorem deepest_append (n : Nat) (xs ys : List Bracket) :
    deepest n (xs ++ ys) = max (deepest n xs) (deepest (levelAfter n xs) ys) := by
  induction xs generalizing n with
  | nil =>
    have h := le_deepest n ys
    simp only [List.nil_append, deepest, levelAfter, List.foldl_nil]
    omega
  | cons b rest ih =>
    have hlevel : levelAfter n (b :: rest) = levelAfter (b.after n) rest := rfl
    rw [List.cons_append, deepest, ih, deepest, hlevel, Nat.max_assoc]

end Bracket

namespace Token

def brackets (tokens : List Token) : List Bracket := tokens.filterMap Bracket.ofToken?

theorem brackets_append (xs ys : List Token) : brackets (xs ++ ys) = brackets xs ++ brackets ys :=
  List.filterMap_append

theorem brackets_opening {t : Token} (ht : t.kind = .opening) (rest : List Token) :
    brackets (t :: rest) = .opening :: brackets rest := by
  simp [brackets, Bracket.ofToken?, ht]

theorem brackets_closing {t : Token} (ht : t.kind = .closing) (rest : List Token) :
    brackets (t :: rest) = .closing :: brackets rest := by
  simp [brackets, Bracket.ofToken?, ht]

theorem brackets_other {t : Token} (ho : t.kind ≠ .opening) (hc : t.kind ≠ .closing)
    (rest : List Token) : brackets (t :: rest) = brackets rest := by
  have hnone : Bracket.ofToken? t = none := by
    unfold Bracket.ofToken?
    split <;> simp_all
  simp [brackets, hnone]

def levelAfter (n : Nat) (tokens : List Token) : Nat := Bracket.levelAfter n (brackets tokens)

theorem levelAfter_append (n : Nat) (xs ys : List Token) :
    levelAfter n (xs ++ ys) = levelAfter (levelAfter n xs) ys := by
  rw [levelAfter, brackets_append, Bracket.levelAfter_append]
  rfl

/-- The pieces between those operators `op` that stand outside all parentheses, of which `n` are
open before the tokens. -/
def segments (op : Op) (n : Nat) : List Token → List (List Token)
  | [] => [[]]
  | t :: rest =>
    if t.kind = .operator op ∧ n = 0 then [] :: segments op n rest
    else (segments op (levelAfter n [t]) rest).modifyHead (t :: ·)

variable {op : Op} {n : Nat} {t : Token} {xs ys rest : List Token}

theorem segments_cut (ht : t.kind = .operator op) :
    segments op 0 (t :: rest) = [] :: segments op 0 rest := by
  rw [segments, if_pos ⟨ht, rfl⟩]

theorem segments_keep (h : ¬(t.kind = .operator op ∧ n = 0)) :
    segments op n (t :: rest) = (segments op (levelAfter n [t]) rest).modifyHead (t :: ·) := by
  rw [segments, if_neg h]

theorem segments_ne_nil (op : Op) (n : Nat) (tokens : List Token) : segments op n tokens ≠ [] := by
  cases tokens with
  | nil => simp [segments]
  | cons t rest =>
    by_cases h : t.kind = .operator op ∧ n = 0
    · simp [segments, h]
    · rw [segments_keep h, ne_eq, List.modifyHead_eq_nil_iff]
      exact segments_ne_nil op _ rest

theorem length_segments_pos (op : Op) (n : Nat) (tokens : List Token) :
    0 < (segments op n tokens).length :=
  List.length_pos_iff.mpr (segments_ne_nil op n tokens)

/-- An operator outside all parentheses separates the pieces before it from those after it. -/
theorem segments_append_operator (ht : t.kind = .operator op) (hx : levelAfter n xs = 0) :
    segments op n (xs ++ t :: ys) = segments op n xs ++ segments op 0 ys := by
  induction xs generalizing n with
  | nil =>
    have hn : n = 0 := hx
    rw [hn, List.nil_append, segments_cut ht]
    rfl
  | cons x more ih =>
    have hmore : levelAfter (levelAfter n [x]) more = 0 := by
      rw [← levelAfter_append]
      exact hx
    by_cases h : x.kind = .operator op ∧ n = 0
    · obtain ⟨hop, rfl⟩ := h
      have hsame : levelAfter 0 [x] = 0 := by
        simp [levelAfter, brackets, Bracket.ofToken?, hop, Bracket.levelAfter]
      rw [hsame] at hmore
      rw [List.cons_append, segments_cut hop, segments_cut hop, ih hmore]
      rfl
    · rw [List.cons_append, segments_keep h, segments_keep h, ih hmore]
      cases hseg : segments op (levelAfter n [x]) more with
      | nil => exact absurd hseg (segments_ne_nil op _ more)
      | cons s ss => rfl

/-- The pieces and the operators between them are as many as the tokens. -/
theorem length_of_mem_segments {s : List Token} (h : s ∈ segments op n rest) :
    s.length + (segments op n rest).length ≤ rest.length + 1 := by
  induction rest generalizing n s with
  | nil =>
    obtain rfl := List.mem_singleton.mp h
    exact Nat.le_refl _
  | cons t more ih =>
    by_cases hcut : t.kind = .operator op ∧ n = 0
    · obtain ⟨hop, rfl⟩ := hcut
      rw [segments_cut hop] at h ⊢
      simp only [List.length_cons]
      rcases List.mem_cons.mp h with rfl | hs
      · have hlen : ∀ s' ∈ segments op 0 more, (segments op 0 more).length ≤ more.length + 1 :=
          fun s' hs' => by have := ih hs'; omega
        obtain ⟨s', hs'⟩ := List.exists_mem_of_ne_nil _ (segments_ne_nil op 0 more)
        have := hlen s' hs'
        simp only [List.length_nil]
        omega
      · have := ih hs
        omega
    · rw [segments_keep hcut] at h ⊢
      rw [List.length_modifyHead, List.length_cons]
      cases hseg : segments op (levelAfter n [t]) more with
      | nil => exact absurd hseg (segments_ne_nil op _ more)
      | cons first others =>
        rw [hseg, List.modifyHead_cons] at h
        have hfirst := ih (n := levelAfter n [t]) (s := first) (by rw [hseg]; simp)
        rw [hseg] at hfirst
        rcases List.mem_cons.mp h with rfl | hs
        · simp only [List.length_cons] at hfirst ⊢
          omega
        · have hother := ih (n := levelAfter n [t]) (s := s) (by rw [hseg]; simp [hs])
          rw [hseg] at hother
          omega

end Token

end BoolExpr
