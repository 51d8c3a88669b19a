import BoolExpr.Error
import BoolExpr.Text.Lowercase

/-!
Values for variables: a finite map from names to truth values that keeps the order in which names
were added. Maps are made from pairs of raw text, where names are brought to lowercase, the first
value of a name stands, and the only values are the texts 0 and 1.
-/
namespace BoolExpr

structure Bindings where
  entries : List (String × Bool)
  distinct : (entries.map Prod.fst).Nodup
deriving DecidableEq

namespace Bindings

def empty : Bindings := ⟨[], List.nodup_nil⟩

instance : Inhabited Bindings := ⟨empty⟩

def names (b : Bindings) : List String := b.entries.map Prod.fst

def find? (b : Bindings) (name : String) : Option Bool := b.entries.lookup name

def contains (b : Bindings) (name : String) : Bool := (b.find? name).isSome

theorem find?_eq_none_iff (b : Bindings) (name : String) :
    b.find? name = none ↔ name ∉ b.names := by
  obtain ⟨entries, h⟩ := b
  simp only [find?, names]
  clear h
  induction entries with
  | nil => simp
  | cons entry rest ih =>
    rw [List.lookup_cons]
    by_cases heq : name = entry.1
    · simp [heq]
    · have hne : (name == entry.1) = false := by simpa using heq
      simp [hne, ih, heq]

theorem contains_iff (b : Bindings) (name : String) : b.contains name = true ↔ name ∈ b.names := by
  have h := b.find?_eq_none_iff name
  unfold contains
  cases hf : b.find? name with
  | none => simpa [hf] using h
  | some value => simpa [hf] using h

/-- Adds a value at the end, unless the name has one already. -/
def add (b : Bindings) (name : String) (value : Bool) : Bindings :=
  if h : name ∈ b.names then b
  else ⟨b.entries ++ [(name, value)], by
    simpa [List.nodup_append, b.distinct, names] using
      fun a ha heq => h (by simpa [names, ← heq] using ha)⟩

/-- The first value of each name in a list. -/
def ofList (pairs : List (String × Bool)) : Bindings :=
  pairs.foldl (fun b pair => b.add pair.1 pair.2) empty

def restrict (b : Bindings) (names : NameSet) : Bindings :=
  ⟨b.entries.filter fun entry => entry.1 ∈ names,
    b.distinct.sublist (List.filter_sublist.map Prod.fst)⟩

theorem find?_restrict (b : Bindings) (names : NameSet) (name : String) :
    (b.restrict names).find? name = if name ∈ names then b.find? name else none := by
  obtain ⟨entries, h⟩ := b
  simp only [find?, restrict]
  clear h
  induction entries with
  | nil => simp
  | cons entry rest ih =>
    obtain ⟨key, value⟩ := entry
    rw [List.filter_cons]
    by_cases hmem : key ∈ names
    · by_cases heq : name = key
      · simp [hmem, heq]
      · have hne : (name == key) = false := by simpa using heq
        simp [hmem, List.lookup_cons, hne, ih]
    · by_cases heq : name = key
      · subst heq
        rw [if_neg hmem] at ih ⊢
        simpa [hmem] using ih
      · have hne : (name == key) = false := by simpa using heq
        simp [hmem, List.lookup_cons, hne, ih]

def readValue (name raw : String) : Except ExprError Bool :=
  if raw = "1" then .ok true
  else if raw = "0" then .ok false
  else .error (.invalidValue name raw)

/-- Adds one raw pair. A pair with an empty key, or with a name that has a value already, is passed
over whatever its value is. -/
def addRaw (b : Bindings) (pair : String × String) : Except ExprError Bindings :=
  let name := Text.lowercase pair.1
  if pair.1 = "" ∨ name ∈ b.names then .ok b
  else (readValue pair.1 pair.2).map (b.add name)

def ofRaw (pairs : List (String × String)) : Except ExprError Bindings := pairs.foldlM addRaw empty

end Bindings

end BoolExpr
