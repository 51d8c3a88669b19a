import Mathlib.Data.Nat.Digits.Defs
import Mathlib.Logic.ExistsUnique
import BoolExpr.Proofs.Raising
import BoolExpr.Proofs.Splice
import BoolExpr.Proofs.TruthFunction

/-!
The rows of a truth table by number. A row is numbered by the values of the variables in their
order, read as binary digits of which the first is the most significant; every number below the
number of rows is that of one assignment. So an evaluation can be looked up in the table, and the
table of an expression is monotone, in the values of the variables as in the literals of the text.
-/
namespace BoolExpr

namespace TruthTable

/-- The number with these binary digits, of which the first is the most significant. -/
def rowNumber (digits : List Bool) : Nat := Nat.ofDigits 2 (digits.reverse.map Bool.toNat)

variable {digits digits' : List Bool} {names : List String} {name : String}

theorem rowNumber_cons (digit : Bool) (digits : List Bool) :
    rowNumber (digit :: digits) = rowNumber digits + 2 ^ digits.length * digit.toNat := by
  simp [rowNumber, Nat.ofDigits_append]

theorem lt_two_of_mem_digits (digits : List Bool) :
    ∀ d ∈ digits.reverse.map Bool.toNat, d < 2 := by
  intro d hd
  obtain ⟨digit, -, rfl⟩ := List.mem_map.mp hd
  exact digit.toNat_lt

theorem rowNumber_lt (digits : List Bool) : rowNumber digits < 2 ^ digits.length := by
  have hlt := Nat.ofDigits_lt_base_pow_length Nat.one_lt_two (lt_two_of_mem_digits digits)
  rwa [List.length_map, List.length_reverse] at hlt

/-- Every number that is small enough has its digits. -/
theorem exists_digits (n : Nat) {row : Nat} (h : row < 2 ^ n) :
    ∃ digits : List Bool, digits.length = n ∧ rowNumber digits = row := by
  induction n generalizing row with
  | zero =>
    obtain rfl : row = 0 := by simpa using h
    exact ⟨[], rfl, rfl⟩
  | succ n ih =>
    rw [Nat.pow_succ] at h
    by_cases hlow : row < 2 ^ n
    · obtain ⟨digits, rfl, rfl⟩ := ih hlow
      exact ⟨false :: digits, rfl, by simp [rowNumber_cons]⟩
    · have hrest : row - 2 ^ n < 2 ^ n := by omega
      obtain ⟨digits, rfl, hdigits⟩ := ih hrest
      refine ⟨true :: digits, rfl, ?_⟩
      rw [rowNumber_cons, hdigits, Bool.toNat_true]
      omega

theorem rowNumber_injective (hlength : digits.length = digits'.length)
    (h : rowNumber digits = rowNumber digits') : digits = digits' := by
  have hmaps : digits.reverse.map Bool.toNat = digits'.reverse.map Bool.toNat :=
    Nat.ofDigits_inj_of_len_eq Nat.one_lt_two (by simpa using hlength)
      (lt_two_of_mem_digits digits) (lt_two_of_mem_digits digits') h
  have hinjective : Function.Injective Bool.toNat := by unfold Function.Injective; decide
  exact List.reverse_injective (List.map_injective_iff.mpr hinjective hmaps)

theorem existsUnique_digits (n : Nat) {row : Nat} (h : row < 2 ^ n) :
    ∃! digits : List Bool, digits.length = n ∧ rowNumber digits = row := by
  obtain ⟨digits, hlength, hrow⟩ := exists_digits n h
  refine ⟨digits, ⟨hlength, hrow⟩, fun other hother => ?_⟩
  exact rowNumber_injective (hother.1.trans hlength.symm) (hother.2.trans hrow.symm)

theorem length_assignments (names : List String) :
    (assignments names).length = 2 ^ names.length := by
  induction names with
  | nil => rfl
  | cons name names ih =>
    rw [assignments, List.length_append, List.length_map, List.length_map, ih, List.length_cons,
      Nat.pow_succ, Nat.mul_two]

/-- The assignment with the number of some digits gives these to the names in turn. -/
theorem getElem?_assignments (h : digits.length = names.length) :
    (assignments names)[rowNumber digits]? = some (names.zip digits) := by
  induction names generalizing digits with
  | nil =>
    obtain rfl := List.length_eq_zero_iff.mp h
    rfl
  | cons name names ih =>
    obtain ⟨digit, rest, rfl⟩ := List.exists_cons_of_length_eq_add_one h
    have hrest : rest.length = names.length := Nat.succ.inj h
    have hlt : rowNumber rest < (assignments names).length := by
      rw [length_assignments, ← hrest]
      exact rowNumber_lt rest
    rw [rowNumber_cons, assignments, hrest]
    cases digit with
    | false =>
      -- the first half of the rows
      rw [Bool.toNat_false, Nat.mul_zero, Nat.add_zero,
        List.getElem?_append_left (by rwa [List.length_map]), List.getElem?_map, ih hrest]
      rfl
    | true =>
      rw [Bool.toNat_true, Nat.mul_one, List.getElem?_append_right
        (by rw [List.length_map, length_assignments]; omega), List.length_map, length_assignments,
        Nat.add_sub_cancel, List.getElem?_map, ih hrest]
      rfl

def valueAt (names : List String) (digits : List Bool) (name : String) : Bool :=
  ((names.zip digits).lookup name).getD false

theorem valueAt_map (f : String → Bool) (h : name ∈ names) :
    valueAt names (names.map f) name = f name := by
  induction names with
  | nil => cases h
  | cons first rest ih =>
    rw [valueAt, List.map_cons, List.zip_cons_cons, List.lookup_cons]
    by_cases hname : name = first
    · simp [hname]
    · have hne : (name == first) = false := beq_eq_false_iff_ne.mpr hname
      rw [hne]
      exact ih ((List.mem_cons.mp h).resolve_left hname)

theorem valueAt_le (names : List String) (h : List.Forall₂ (· ≤ ·) digits digits')
    (name : String) : valueAt names digits name ≤ valueAt names digits' name := by
  induction h generalizing names with
  | nil => exact Bool.le_refl _
  | cons hdigit hrest ih =>
    cases names with
    | nil => exact Bool.le_refl _
    | cons first rest =>
      rw [valueAt, valueAt, List.zip_cons_cons, List.zip_cons_cons, List.lookup_cons,
        List.lookup_cons]
      by_cases hname : name = first
      · simpa [hname] using hdigit
      · have hne : (name == first) = false := beq_eq_false_iff_ne.mpr hname
        rw [hne]
        exact ih rest

/-- The row of a table with the number of some digits holds the value under these digits. -/
theorem getElem?_rows {e : Expr} {t : TruthTable} (ht : e.truthTable = .ok t)
    (h : digits.length = e.vars.toList.length) :
    t.rows[rowNumber digits]? = some (e.truth (valueAt e.vars.toList digits)) := by
  obtain rfl := Except.ok.inj ((TruthFunction.truthTable_eq e).symm.trans ht)
  rw [TruthFunction.table, List.getElem?_map]
  show Option.map _ (assignments e.vars.toList)[rowNumber digits]? = _
  rw [getElem?_assignments h, Option.map_some, TruthFunction.valueUnder_ofExpr]
  rfl

end TruthTable

def Bindings.digits (b : Bindings) (names : NameSet) : List Bool :=
  names.toList.map fun name => (b.find? name).getD false

namespace Engine

open TruthTable (rowNumber)

variable {engine : Engine} {source source' : String} {e : Expr} {b b' : Bindings}

/-- Where a table has the value of an evaluation. -/
theorem exists_row_of_contains (h : engine.parse source = .ok e) {t : TruthTable}
    (ht : e.truthTable = .ok t) (hb : ∀ name ∈ e.vars, b.contains name = true) :
    ∃ value, engine.evaluate source b = .ok value ∧
      t.rows[rowNumber (b.digits e.vars)]? = some value := by
  refine ⟨_, (evaluate_of_parse h b).trans (Expr.evaluate_of_contains hb), ?_⟩
  rw [Bindings.digits, TruthTable.getElem?_rows ht (List.length_map _)]
  refine congrArg some (Expr.truth_congr fun name hname => ?_)
  exact TruthTable.valueAt_map _ (Expr.mem_vars.mpr hname)

/-- What is true for a text stays true when digits 0 of it become 1. -/
theorem evaluate_of_raises (h : engine.parse source = .ok e) (hraises : Raises source source')
    (htrue : engine.evaluate source b = .ok true) : engine.evaluate source' b = .ok true := by
  obtain ⟨e', he', hmore⟩ := exists_parse_of_raises h hraises
  rw [evaluate_of_parse h] at htrue
  rw [evaluate_of_parse he']
  have hall : b.LeOn e.vars b := .refl_of_contains (Expr.contains_of_evaluate htrue)
  obtain ⟨value, value', hvalue, hvalue', hle⟩ := hmore.evaluate_le hall
  obtain rfl : true = value := Except.ok.inj (htrue.symm.trans hvalue)
  rw [hvalue', Bool.eq_true_of_true_le hle]

/-- The truth table of an accepted text is complete, and it is monotone. It has one row for each
sequence of values of the variables, which are in increasing order, and the number of the row is the
one with these values as binary digits; there stands what the text evaluates to under any map with
these values for the variables, whatever else the map holds. Under greater values of the variables
the value is no less, so no row is above one whose number has a digit 1 in place of a digit 0; and a
text with digits 1 in place of digits 0 is accepted as well, with the same variables, and is true
wherever the text was. -/
theorem truthTable_monotone (h : engine.parse source = .ok e) :
    ∃ t, e.truthTable = .ok t ∧ t.vars = e.vars ∧ t.rows.length = 2 ^ e.vars.toList.length ∧
      (∀ row, row < t.rows.length → ∃! digits : List Bool,
        digits.length = e.vars.toList.length ∧ rowNumber digits = row) ∧
      (∀ b : Bindings, (∀ name ∈ e.vars, b.contains name = true) →
        ∃ value, engine.evaluate source b = .ok value ∧
          t.rows[rowNumber (b.digits e.vars)]? = some value) ∧
      (∀ b b' : Bindings, b.LeOn e.vars b' →
        ∃ value value', engine.evaluate source b = .ok value ∧
          engine.evaluate source b' = .ok value' ∧ value ≤ value') ∧
      (∀ digits digits', digits.length = e.vars.toList.length →
        List.Forall₂ (· ≤ ·) digits digits' →
        ∃ value value' : Bool, t.rows[rowNumber digits]? = some value ∧
          t.rows[rowNumber digits']? = some value' ∧ value ≤ value') ∧
      ∀ source', Raises source source' →
        (∃ e', engine.parse source' = .ok e' ∧ e'.vars = e.vars) ∧
        ∀ b, engine.evaluate source b = .ok true → engine.evaluate source' b = .ok true := by
  have ht := TruthFunction.truthTable_eq e
  have hlength : (TruthFunction.ofExpr e).table.rows.length = 2 ^ e.vars.toList.length :=
    (List.length_map _).trans (TruthTable.length_assignments _)
  refine ⟨_, ht, rfl, hlength, ?_, fun b => exists_row_of_contains h ht, ?_, ?_, ?_⟩
  · rw [hlength]
    exact fun row hrow => TruthTable.existsUnique_digits _ hrow
  · intro b b' hb
    rw [evaluate_of_parse h, evaluate_of_parse h]
    exact (Expr.UpToLiterals.refl Bool.le_refl e).evaluate_le hb
  · intro digits digits' hdigits hle
    have hdigits' := hle.length_eq.symm.trans hdigits
    refine ⟨_, _, TruthTable.getElem?_rows ht hdigits, TruthTable.getElem?_rows ht hdigits', ?_⟩
    exact (Expr.UpToLiterals.refl Bool.le_refl e).truth_le fun name _ =>
      TruthTable.valueAt_le _ hle name
  · intro source' hraises
    obtain ⟨e', he', hmore⟩ := exists_parse_of_raises h hraises
    refine ⟨⟨e', he', congrArg NameSet.ofList hmore.names_eq.symm⟩, fun b htrue => ?_⟩
    exact evaluate_of_raises h hraises htrue

/-- Of the rows 00, 01, 10 and 11 the last two are true, and the text with the digit raised is true
where this one is. -/
theorem truthTable_monotone_of_two_variables :
    let b := Bindings.ofList [("y", false), ("x", true), ("z", true)]
    let e := Expr.binary .or (.binary .and (.literal false) (.var "y")) (.var "x")
    (unlimited .standard).parse "0 AND y OR x" = .ok e ∧
      Raises "0 AND y OR x" "1 AND y OR x" ∧
      (∃ t, e.truthTable = .ok t ∧ t.rows = [false, false, true, true] ∧
        rowNumber (b.digits e.vars) = 2 ∧ t.rows[2]? = some true) ∧
      (unlimited .standard).evaluate "0 AND y OR x" b = .ok true ∧
      (unlimited .standard).evaluate "1 AND y OR x" b = .ok true := by
  intro b e
  have hparse : (unlimited .standard).parse "0 AND y OR x" = .ok e := by
    with_unfolding_all rfl
  have hraises : Raises "0 AND y OR x" "1 AND y OR x" :=
    .cons (.inr ⟨rfl, rfl⟩) (List.forall₂_same.mpr fun _ _ => .inl rfl)
  have hnumber : rowNumber (b.digits e.vars) = 2 := by decide
  have hrows : e.truthTable = .ok ⟨e.vars, [false, false, true, true]⟩ := by
    rw [TruthFunction.truthTable_eq]
    rfl
  obtain ⟨t, ht, -, -, -, hrow, -, -, hraised⟩ := truthTable_monotone hparse
  obtain rfl := Except.ok.inj (hrows.symm.trans ht)
  obtain ⟨value, hvalue, hbit⟩ := hrow b (by decide)
  rw [hnumber] at hbit
  obtain rfl : true = value := Option.some.inj hbit
  exact ⟨hparse, hraises, ⟨_, ht, rfl, hnumber, hbit⟩, hvalue, (hraised _ hraises).2 b hvalue⟩

end Engine

end BoolExpr
