import BoolExpr.Proofs.Nesting

/-!
Parentheses of a text matched up. Going over the text from left to right, a closing parenthesis
closes the innermost one that is open, or nothing if none is; what is left are the places of the
opening parentheses that are not closed and of the closing ones that close nothing.
-/
namespace BoolExpr

/-- The places of the opening parentheses that are open, innermost first, and of the closing ones
that close nothing, in the order of the text. -/
structure Matching where
  opened : List Nat
  stray : List Nat

namespace Matching

def step (m : Matching) (p : Nat) (c : Char) : Matching :=
  match Bracket.ofChar? c, m.opened with
  | none, _ => m
  | some .opening, opened => ⟨p :: opened, m.stray⟩
  | some .closing, [] => ⟨[], m.stray ++ [p]⟩
  | some .closing, _ :: outer => ⟨outer, m.stray⟩

def runFrom (p : Nat) (m : Matching) : List Char → Matching
  | [] => m
  | c :: rest => runFrom (p + 1) (m.step p c) rest

def ofText (cs : List Char) : Matching := runFrom 0 ⟨[], []⟩ cs

variable {p : Nat} {m : Matching} {c : Char} {cs front rest : List Char}

theorem step_opening (m : Matching) (p : Nat) : m.step p '(' = ⟨p :: m.opened, m.stray⟩ := rfl

theorem step_closing_cons {q : Nat} {outer : List Nat} (h : m.opened = q :: outer) :
    m.step p ')' = ⟨outer, m.stray⟩ := by
  simp [step, Bracket.ofChar?, h]

theorem step_closing_nil (h : m.opened = []) : m.step p ')' = ⟨[], m.stray ++ [p]⟩ := by
  simp [step, Bracket.ofChar?, h]

theorem runFrom_append (p : Nat) (m : Matching) (xs ys : List Char) :
    runFrom p m (xs ++ ys) = runFrom (p + xs.length) (runFrom p m xs) ys := by
  induction xs generalizing p m with
  | nil => rfl
  | cons c xs ih =>
    rw [List.cons_append, runFrom, ih, runFrom, List.length_cons, Nat.add_assoc,
      Nat.add_comm 1]

theorem ofText_append (xs ys : List Char) :
    ofText (xs ++ ys) = runFrom xs.length (ofText xs) ys := by
  rw [ofText, runFrom_append, Nat.zero_add]
  rfl

theorem runFrom_of_no_bracket (h : ∀ c ∈ cs, Bracket.ofChar? c = none) :
    runFrom p m cs = m := by
  induction cs generalizing p with
  | nil => rfl
  | cons c rest ih =>
    have hstep : m.step p c = m := by simp [step, h c (by simp)]
    rw [runFrom, hstep]
    exact ih fun d hd => h d (by simp [hd])

structure Holds (front : List Char) (m : Matching) : Prop where
  opened_at : ∀ q ∈ m.opened, front[q]? = some '('
  stray_at : ∀ q ∈ m.stray, front[q]? = some ')'
  decreasing : m.opened.Pairwise (· > ·)

theorem eq_of_ofChar? {b : Bracket} (h : Bracket.ofChar? c = some b) :
    c = match b with
      | .opening => '('
      | .closing => ')' := by
  unfold Bracket.ofChar? at h
  split at h
  · cases h
    rfl
  · cases h
    rfl
  · cases h

theorem Holds.step (h : Holds front m) (c : Char) :
    Holds (front ++ [c]) (m.step front.length c) := by
  have hkeep : ∀ {q : Nat} {d : Char}, front[q]? = some d → (front ++ [c])[q]? = some d := by
    intro q d hq
    obtain ⟨hlt, -⟩ := List.getElem?_eq_some_iff.mp hq
    rw [List.getElem?_append_left hlt, hq]
  have hlast : (front ++ [c])[front.length]? = some c := by simp
  have hopened : ∀ q ∈ m.opened, (front ++ [c])[q]? = some '(' :=
    fun q hq => hkeep (h.opened_at q hq)
  have hstray : ∀ q ∈ m.stray, (front ++ [c])[q]? = some ')' :=
    fun q hq => hkeep (h.stray_at q hq)
  unfold Matching.step
  split
  · exact ⟨hopened, hstray, h.decreasing⟩
  · rename_i hc
    obtain rfl : c = '(' := eq_of_ofChar? hc
    refine ⟨?_, hstray, List.pairwise_cons.mpr ⟨?_, h.decreasing⟩⟩
    · intro q hq
      rcases List.mem_cons.mp hq with rfl | hq
      · exact hlast
      · exact hopened q hq
    · intro q hq
      obtain ⟨hlt, -⟩ := List.getElem?_eq_some_iff.mp (h.opened_at q hq)
      exact hlt
  · rename_i hc hnil
    obtain rfl : c = ')' := eq_of_ofChar? hc
    refine ⟨by simp, ?_, List.Pairwise.nil⟩
    intro q hq
    rcases List.mem_append.mp hq with hq | hq
    · exact hstray q hq
    · obtain rfl := List.mem_singleton.mp hq
      exact hlast
  · rename_i paren outer hc hcons
    rw [hcons] at hopened
    have hdecreasing := h.decreasing
    rw [hcons] at hdecreasing
    exact ⟨fun q hq => hopened q (by simp [hq]), hstray, (List.pairwise_cons.mp hdecreasing).2⟩

theorem Holds.runFrom (h : Holds front m) (cs : List Char) :
    Holds (front ++ cs) (runFrom front.length m cs) := by
  induction cs generalizing front m with
  | nil => rwa [List.append_nil]
  | cons c rest ih =>
    have hrest := ih (h.step c)
    rw [List.length_append, List.length_singleton, List.append_assoc] at hrest
    exact hrest

theorem holds_ofText (cs : List Char) : Holds cs (ofText cs) := by
  have hempty : Holds [] ⟨[], []⟩ := ⟨by simp, by simp, List.Pairwise.nil⟩
  exact hempty.runFrom cs

/-- Closing parentheses that close nothing are found in the order of the text. -/
theorem exists_stray_runFrom (p : Nat) (m : Matching) (cs : List Char) :
    ∃ more, (runFrom p m cs).stray = m.stray ++ more ∧ ∀ q ∈ more, p ≤ q := by
  induction cs generalizing p m with
  | nil => exact ⟨[], by simp [Matching.runFrom], by simp⟩
  | cons c rest ih =>
    obtain ⟨more, hmore, hle⟩ := ih (p + 1) (m.step p c)
    have hstep : ∃ first, (m.step p c).stray = m.stray ++ first ∧ ∀ q ∈ first, p ≤ q := by
      unfold step
      split
      · exact ⟨[], by simp, by simp⟩
      · exact ⟨[], by simp, by simp⟩
      · exact ⟨[p], rfl, by simp⟩
      · exact ⟨[], by simp, by simp⟩
    obtain ⟨first, hfirst, hle'⟩ := hstep
    refine ⟨first ++ more, ?_, ?_⟩
    · rw [Matching.runFrom, hmore, hfirst, List.append_assoc]
    · intro q hq
      rcases List.mem_append.mp hq with hq | hq
      · exact hle' q hq
      · have := hle q hq
        omega

/-- The first closing parenthesis that closes nothing. -/
theorem first_stray (hopened : (ofText front).opened = []) (hstray : (ofText front).stray = []) :
    front.length ∈ (ofText (front ++ ')' :: rest)).stray ∧
      ∀ q ∈ (ofText (front ++ ')' :: rest)).stray, front.length ≤ q := by
  have hstep : (ofText front).step front.length ')' = ⟨[], [front.length]⟩ := by
    rw [step_closing_nil hopened, hstray]
    rfl
  obtain ⟨more, hmore, hle⟩ :=
    exists_stray_runFrom (front.length + 1) ⟨[], [front.length]⟩ rest
  rw [ofText_append, Matching.runFrom, hstep, hmore]
  refine ⟨by simp, ?_⟩
  intro q hq
  rcases List.mem_append.mp hq with hq | hq
  · exact Nat.le_of_eq (List.mem_singleton.mp hq).symm
  · have := hle q hq
    omega

/-- The innermost of the parentheses that are open is the last one. -/
theorem last_opened {q : Nat} {outer : List Nat} (h : (ofText cs).opened = q :: outer) :
    q ∈ (ofText cs).opened ∧ ∀ r ∈ (ofText cs).opened, r ≤ q := by
  have hdecreasing := (holds_ofText cs).decreasing
  rw [h] at hdecreasing ⊢
  refine ⟨by simp, ?_⟩
  intro r hr
  rcases List.mem_cons.mp hr with rfl | hr
  · exact Nat.le_refl r
  · exact Nat.le_of_lt ((List.pairwise_cons.mp hdecreasing).1 r hr)

end Matching

end BoolExpr
