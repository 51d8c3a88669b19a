/-!
Finite sets of names, kept as strictly increasing lists in the order of code points. Two sets with
the same members are equal, so a set is also the sorted list that messages and documents show.
-/
namespace BoolExpr

structure NameSet where
  toList : List String
  increasing : toList.Pairwise (· < ·)
deriving DecidableEq

namespace NameSet

instance : Membership String NameSet := ⟨fun s name => name ∈ s.toList⟩

theorem mem_def {name : String} {s : NameSet} : name ∈ s ↔ name ∈ s.toList := Iff.rfl

instance (name : String) (s : NameSet) : Decidable (name ∈ s) :=
  inferInstanceAs (Decidable (name ∈ s.toList))

instance (s : NameSet) (p : String → Prop) [DecidablePred p] : Decidable (∀ name ∈ s, p name) :=
  inferInstanceAs (Decidable (∀ name ∈ s.toList, p name))

def empty : NameSet := ⟨[], List.Pairwise.nil⟩

instance : Inhabited NameSet := ⟨empty⟩

/-- Puts a name into its place in an increasing list, unless it is there already. -/
def place (name : String) : List String → List String
  | [] => [name]
  | x :: xs =>
    if name < x then name :: x :: xs
    else if name = x then x :: xs
    else x :: place name xs

theorem mem_place {name x : String} {xs : List String} :
    x ∈ place name xs ↔ x = name ∨ x ∈ xs := by
  induction xs with
  | nil => simp [place]
  | cons y ys ih =>
    unfold place
    split
    · simp
    · split
      · rename_i h
        simp [h]
      · simp only [List.mem_cons, ih]
        constructor <;> rintro (h | h | h) <;> simp [h]

theorem lt_of_not_lt {a b : String} (h : ¬a < b) (hne : a ≠ b) : b < a := by
  rcases Std.le_iff_lt_or_eq.mp (Std.not_lt.mp h) with hlt | heq
  · exact hlt
  · exact absurd heq.symm hne

theorem place_increasing {name : String} {xs : List String} (h : xs.Pairwise (· < ·)) :
    (place name xs).Pairwise (· < ·) := by
  induction xs with
  | nil => simp [place]
  | cons y ys ih =>
    obtain ⟨hy, hys⟩ := List.pairwise_cons.mp h
    unfold place
    split
    · rename_i hlt
      refine List.pairwise_cons.mpr ⟨fun z hz => ?_, h⟩
      rcases List.mem_cons.mp hz with rfl | hz
      · exact hlt
      · exact Std.lt_trans hlt (hy z hz)
    · split
      · exact h
      · rename_i hlt hne
        refine List.pairwise_cons.mpr ⟨fun z hz => ?_, ih hys⟩
        rcases mem_place.mp hz with rfl | hz
        · exact lt_of_not_lt hlt hne
        · exact hy z hz

def insert (name : String) (s : NameSet) : NameSet :=
  ⟨place name s.toList, place_increasing s.increasing⟩

def ofList (names : List String) : NameSet := names.foldr insert empty

def union (s t : NameSet) : NameSet := s.toList.foldr insert t

def filter (p : String → Bool) (s : NameSet) : NameSet :=
  ⟨s.toList.filter p, s.increasing.filter p⟩

def isEmpty (s : NameSet) : Bool := s.toList.isEmpty

@[simp]
theorem not_mem_empty (name : String) : name ∉ empty := by simp [mem_def, empty]

@[simp]
theorem mem_insert {x name : String} {s : NameSet} : x ∈ insert name s ↔ x = name ∨ x ∈ s :=
  mem_place

@[simp]
theorem mem_ofList {x : String} {names : List String} : x ∈ ofList names ↔ x ∈ names := by
  induction names with
  | nil => simp [ofList]
  | cons name rest ih =>
    simp only [ofList, List.foldr_cons, mem_insert, List.mem_cons] at ih ⊢
    rw [ih]

@[simp]
theorem mem_union {x : String} {s t : NameSet} : x ∈ union s t ↔ x ∈ s ∨ x ∈ t := by
  obtain ⟨names, h⟩ := s
  simp only [union, mem_def (s := ⟨names, h⟩)]
  clear h
  induction names with
  | nil => simp
  | cons name rest ih => simp [ih, or_assoc]

@[simp]
theorem mem_filter {x : String} {p : String → Bool} {s : NameSet} :
    x ∈ filter p s ↔ x ∈ s ∧ p x = true := List.mem_filter

theorem isEmpty_iff {s : NameSet} : s.isEmpty = true ↔ ∀ x, x ∉ s := by
  simp [isEmpty, mem_def, List.eq_nil_iff_forall_not_mem]

/-- An increasing list is determined by its members. -/
theorem increasing_unique {xs ys : List String} (hx : xs.Pairwise (· < ·))
    (hy : ys.Pairwise (· < ·)) (h : ∀ z, z ∈ xs ↔ z ∈ ys) : xs = ys := by
  induction xs generalizing ys with
  | nil => exact (List.eq_nil_iff_forall_not_mem.mpr fun z hz => by simpa using (h z).mpr hz).symm
  | cons x xs ih =>
    cases ys with
    | nil => exact absurd ((h x).mp (by simp)) (by simp)
    | cons y ys =>
      obtain ⟨hx₁, hx₂⟩ := List.pairwise_cons.mp hx
      obtain ⟨hy₁, hy₂⟩ := List.pairwise_cons.mp hy
      have heq : x = y := by
        rcases List.mem_cons.mp ((h x).mp (by simp)) with heq | hmem
        · exact heq
        · rcases List.mem_cons.mp ((h y).mpr (by simp)) with heq | hmem'
          · exact heq.symm
          · exact absurd (Std.lt_trans (hx₁ y hmem') (hy₁ x hmem)) (Std.lt_irrefl)
      subst heq
      refine congrArg (List.cons x) (ih hx₂ hy₂ fun z => ?_)
      constructor
      · intro hz
        rcases List.mem_cons.mp ((h z).mp (List.mem_cons_of_mem x hz)) with rfl | hz'
        · exact absurd (hx₁ z hz) Std.lt_irrefl
        · exact hz'
      · intro hz
        rcases List.mem_cons.mp ((h z).mpr (List.mem_cons_of_mem x hz)) with rfl | hz'
        · exact absurd (hy₁ z hz) Std.lt_irrefl
        · exact hz'

theorem ext {s t : NameSet} (h : ∀ x, x ∈ s ↔ x ∈ t) : s = t := by
  obtain ⟨xs, hx⟩ := s
  obtain ⟨ys, hy⟩ := t
  have heq : xs = ys := increasing_unique hx hy h
  subst heq
  rfl

theorem isEmpty_union {s t : NameSet} :
    (s.union t).isEmpty = true ↔ s.isEmpty = true ∧ t.isEmpty = true := by
  simp only [isEmpty_iff, mem_union, not_or, forall_and]

theorem union_eq_left {s t : NameSet} (h : t.isEmpty = true) : s.union t = s := by
  apply ext
  intro name
  rw [mem_union, or_iff_left (isEmpty_iff.mp h name)]

theorem union_eq_right {s t : NameSet} (h : s.isEmpty = true) : s.union t = t := by
  apply ext
  intro name
  rw [mem_union, or_iff_right (isEmpty_iff.mp h name)]

end NameSet

end BoolExpr
