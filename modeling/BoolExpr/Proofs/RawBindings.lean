import BoolExpr.Proofs.Outcome
import BoolExpr.Proofs.Substitution

/-!
Maps from raw pairs. A pair with an empty key does not count, nor does one whose name, its key in
lowercase, is that of an earlier pair that counts; the others are kept. The main statement is that
the kept pairs alone decide: a map comes of the pairs if and only if the values of all kept pairs
stand for truth values, and then it has one entry for each of them, in their order; otherwise the
first kept pair whose value does not is reported with its key as it is written. What is kept behind
other pairs is what has a new name, so a map can be extended without its pairs being looked at
again.
-/
namespace BoolExpr.Bindings

def IsValue (raw : String) : Prop := raw = "0" ∨ raw = "1"

instance (raw : String) : Decidable (IsValue raw) := instDecidableOr

def Gives (pair : String × String) (name : String) : Prop :=
  pair.1 ≠ "" ∧ name = Text.lowercase pair.1

def firsts : List (String × String) → List (String × String)
  | [] => []
  | pair :: rest =>
    pair :: (firsts rest).filter fun p => Text.lowercase p.1 ≠ Text.lowercase pair.1

/-- The pairs that count: of those that have a key, the first one of each name. -/
def kept (pairs : List (String × String)) : List (String × String) :=
  firsts (pairs.filter fun pair => pair.1 ≠ "")

/-- The pair does not count behind the pairs `front`: it has no key, or one of them that has a key
has the same name. -/
def Dropped (front : List (String × String)) (pair : String × String) : Prop :=
  pair.1 = "" ∨ ∃ p ∈ front, Gives p (Text.lowercase pair.1)

def entryOf (pair : String × String) : String × Bool := (Text.lowercase pair.1, pair.2 = "1")

def readEntries (pairs : List (String × String)) : Except ExprError (List (String × Bool)) :=
  match pairs.find? fun pair => ¬IsValue pair.2 with
  | none => .ok (pairs.map entryOf)
  | some pair => .error (.invalidValue pair.1 pair.2)

def FirstInvalid (pairs : List (String × String)) (pair : String × String) : Prop :=
  ∃ front back, pairs = front ++ pair :: back ∧ (∀ p ∈ front, IsValue p.2) ∧ ¬IsValue pair.2

def newTo (b : Bindings) (pairs : List (String × String)) : List (String × String) :=
  pairs.filter fun pair => Text.lowercase pair.1 ∉ b.names

variable {b c : Bindings} {pair : String × String}
  {pairs rest front back p q : List (String × String)} {name : String} {value : Bool}

theorem entries_add (h : name ∉ b.names) :
    (b.add name value).entries = b.entries ++ [(name, value)] := by
  rw [add, dif_neg h]

theorem readValue_eq (key raw : String) :
    readValue key raw =
      if IsValue raw then .ok (raw = "1" : Bool) else .error (.invalidValue key raw) := by
  unfold readValue IsValue
  by_cases hone : raw = "1"
  · simp [hone]
  · by_cases hzero : raw = "0" <;> simp [hone, hzero]

theorem addRaw_of_known (h : pair.1 = "" ∨ Text.lowercase pair.1 ∈ b.names) :
    b.addRaw pair = .ok b := if_pos h

theorem addRaw_of_new (hkey : pair.1 ≠ "") (hnew : Text.lowercase pair.1 ∉ b.names) :
    b.addRaw pair =
      if IsValue pair.2 then .ok (b.add (Text.lowercase pair.1) (pair.2 = "1"))
      else .error (.invalidValue pair.1 pair.2) := by
  rw [addRaw, if_neg (by simp [hkey, hnew]), readValue_eq]
  split <;> rfl

theorem readEntries_cons (pair : String × String) (rest : List (String × String)) :
    readEntries (pair :: rest) =
      if IsValue pair.2 then (readEntries rest).map (entryOf pair :: ·)
      else .error (.invalidValue pair.1 pair.2) := by
  unfold readEntries
  rw [List.find?_cons]
  by_cases hvalue : IsValue pair.2
  · simp only [hvalue, not_true_eq_false, decide_false, if_true]
    cases rest.find? fun pair => ¬IsValue pair.2 <;> rfl
  · simp [hvalue]

theorem kept_cons_of_empty (h : pair.1 = "") : kept (pair :: rest) = kept rest := by
  simp [kept, h]

theorem kept_cons (h : pair.1 ≠ "") :
    kept (pair :: rest) =
      pair :: (kept rest).filter fun p => Text.lowercase p.1 ≠ Text.lowercase pair.1 := by
  simp [kept, h, firsts]

theorem newTo_cons_of_mem (h : Text.lowercase pair.1 ∈ b.names) :
    newTo b (pair :: rest) = newTo b rest := by
  simp [newTo, h]

theorem newTo_cons (h : Text.lowercase pair.1 ∉ b.names) :
    newTo b (pair :: rest) = pair :: newTo b rest := by
  simp [newTo, h]

/-- What is new to a map among pairs that are kept behind a pair with a name of the map. -/
theorem newTo_filter_ne (h : name ∈ b.names) (pairs : List (String × String)) :
    newTo b (pairs.filter fun p => Text.lowercase p.1 ≠ name) = newTo b pairs := by
  unfold newTo
  rw [List.filter_filter]
  refine List.filter_congr fun p _ => ?_
  by_cases hname : Text.lowercase p.1 = name
  · simp [hname, h]
  · simp [hname]

theorem newTo_add (h : name ∉ b.names) (value : Bool) (pairs : List (String × String)) :
    newTo (b.add name value) pairs =
      newTo b (pairs.filter fun p => Text.lowercase p.1 ≠ name) := by
  unfold newTo
  rw [List.filter_filter]
  refine List.filter_congr fun p _ => ?_
  simp [names, entries_add h]

/-- Pairs extend a map by the entries of those kept pairs that are new to it. -/
theorem foldlM_addRaw (b : Bindings) (pairs : List (String × String)) :
    (pairs.foldlM addRaw b).map entries =
      (readEntries (newTo b (kept pairs))).map (b.entries ++ ·) := by
  induction pairs generalizing b with
  | nil => exact congrArg Except.ok (List.append_nil b.entries).symm
  | cons pair rest ih =>
    rw [List.foldlM_cons]
    by_cases hkey : pair.1 = ""
    · rw [addRaw_of_known (Or.inl hkey), kept_cons_of_empty hkey]
      exact ih b
    rw [kept_cons hkey]
    by_cases hknown : Text.lowercase pair.1 ∈ b.names
    · rw [addRaw_of_known (Or.inr hknown), newTo_cons_of_mem hknown, newTo_filter_ne hknown]
      exact ih b
    rw [addRaw_of_new hkey hknown, newTo_cons hknown, readEntries_cons]
    by_cases hvalue : IsValue pair.2
    · rw [if_pos hvalue, if_pos hvalue, ← newTo_add hknown (pair.2 = "1" : Bool)]
      refine (ih _).trans ?_
      rw [entries_add hknown]
      cases readEntries (newTo (b.add (Text.lowercase pair.1) (pair.2 = "1")) (kept rest)) with
      | error e => rfl
      | ok entries => exact congrArg Except.ok (List.append_assoc _ _ _)
    · rw [if_neg hvalue, if_neg hvalue]
      rfl

/-- The kept pairs make the map. -/
theorem ofRaw_eq (pairs : List (String × String)) :
    (ofRaw pairs).map entries = readEntries (kept pairs) := by
  have hall : newTo empty (kept pairs) = kept pairs := by simp [newTo, names, empty]
  rw [ofRaw, foldlM_addRaw, hall]
  cases readEntries (kept pairs) <;> rfl

theorem values_or_firstInvalid (pairs : List (String × String)) :
    (∀ pair ∈ pairs, IsValue pair.2) ∨ ∃ pair, FirstInvalid pairs pair := by
  induction pairs with
  | nil => exact Or.inl (by simp)
  | cons pair rest ih =>
    by_cases hvalue : IsValue pair.2
    · rcases ih with hall | ⟨p, front, back, rfl, hfront, hp⟩
      · exact Or.inl (by simpa [hvalue] using hall)
      · exact Or.inr ⟨p, pair :: front, back, rfl, by simpa [hvalue] using hfront, hp⟩
    · exact Or.inr ⟨pair, [], rest, rfl, by simp, hvalue⟩

theorem readEntries_of_values (h : ∀ pair ∈ pairs, IsValue pair.2) :
    readEntries pairs = .ok (pairs.map entryOf) := by
  have hnone : pairs.find? (fun pair => ¬IsValue pair.2) = none := by simpa using h
  rw [readEntries, hnone]

theorem readEntries_of_firstInvalid (h : FirstInvalid pairs pair) :
    readEntries pairs = .error (.invalidValue pair.1 pair.2) := by
  obtain ⟨front, back, rfl, hfront, hpair⟩ := h
  have hnone : front.find? (fun pair => ¬IsValue pair.2) = none := by simpa using hfront
  have hfound : (pair :: back).find? (fun pair => ¬IsValue pair.2) = some pair :=
    List.find?_cons_of_pos (by simpa using hpair)
  rw [readEntries, List.find?_append, hnone, Option.none_or, hfound]

/-- Kept pairs with truth values become the entries of the map. -/
theorem exists_ofRaw_of_values (h : ∀ pair ∈ kept pairs, IsValue pair.2) :
    ∃ b, ofRaw pairs = .ok b ∧ b.entries = (kept pairs).map entryOf := by
  have hentries := ofRaw_eq pairs
  rw [readEntries_of_values h] at hentries
  exact Outcome.map_eq_ok.mp hentries

/-- The first kept pair whose value is none is reported. -/
theorem ofRaw_of_firstInvalid (h : FirstInvalid (kept pairs) pair) :
    ofRaw pairs = .error (.invalidValue pair.1 pair.2) := by
  have hentries := ofRaw_eq pairs
  rw [readEntries_of_firstInvalid h] at hentries
  cases hread : ofRaw pairs with
  | ok b =>
    rw [hread] at hentries
    cases hentries
  | error e =>
    rw [hread] at hentries
    exact congrArg Except.error (Except.error.inj hentries)

theorem values_of_ofRaw (h : ofRaw pairs = .ok b) :
    (∀ pair ∈ kept pairs, IsValue pair.2) ∧ b.entries = (kept pairs).map entryOf := by
  rcases values_or_firstInvalid (kept pairs) with hall | ⟨pair, hpair⟩
  · obtain ⟨b', hb', hentries⟩ := exists_ofRaw_of_values hall
    obtain rfl : b = b' := Except.ok.inj (h.symm.trans hb')
    exact ⟨hall, hentries⟩
  · cases h.symm.trans (ofRaw_of_firstInvalid hpair)

/-- The kept pairs have the names to which any of the pairs gives a value. -/
theorem exists_mem_kept (pairs : List (String × String)) (name : String) :
    (∃ pair ∈ kept pairs, Text.lowercase pair.1 = name) ↔ ∃ pair ∈ pairs, Gives pair name := by
  induction pairs with
  | nil => simp [kept, firsts]
  | cons pair rest ih =>
    by_cases hkey : pair.1 = ""
    · rw [kept_cons_of_empty hkey, ih]
      simp [Gives, hkey]
    · rw [kept_cons hkey]
      by_cases hname : Text.lowercase pair.1 = name
      · exact iff_of_true ⟨pair, by simp, hname⟩ ⟨pair, by simp, hkey, hname.symm⟩
      · have hother : ¬Gives pair name := fun h => hname h.2.symm
        simp only [List.mem_cons, exists_eq_or_imp, hname, hother, false_or, List.mem_filter, ← ih]
        refine exists_congr fun p => ?_
        constructor
        · rintro ⟨⟨hp, -⟩, heq⟩
          exact ⟨hp, heq⟩
        · rintro ⟨hp, rfl⟩
          exact ⟨⟨hp, decide_eq_true fun heq => hname heq.symm⟩, rfl⟩

theorem mem_names_ofRaw (h : ofRaw pairs = .ok b) (name : String) :
    name ∈ b.names ↔ ∃ pair ∈ pairs, Gives pair name := by
  rw [← exists_mem_kept, names, (values_of_ofRaw h).2]
  simp [entryOf]

/-- A dropped pair has no influence. -/
theorem ofRaw_dropped (h : Dropped front pair) (back : List (String × String)) :
    ofRaw (front ++ pair :: back) = ofRaw (front ++ back) := by
  rw [ofRaw, ofRaw, List.foldlM_append, List.foldlM_append]
  refine Outcome.bind_congr fun b hb => ?_
  have hknown : pair.1 = "" ∨ Text.lowercase pair.1 ∈ b.names :=
    h.imp id fun hfront => (mem_names_ofRaw hb _).mpr hfront
  rw [List.foldlM_cons, addRaw_of_known hknown]
  rfl

/-- Which names are left out does not depend on which pairs of other names stand before. -/
theorem newTo_kept (b : Bindings) (pairs : List (String × String)) :
    newTo b (kept pairs) = kept (newTo b pairs) := by
  induction pairs with
  | nil => rfl
  | cons pair rest ih =>
    by_cases hname : Text.lowercase pair.1 ∈ b.names
    · rw [newTo_cons_of_mem hname, ← ih]
      by_cases hkey : pair.1 = ""
      · rw [kept_cons_of_empty hkey]
      · rw [kept_cons hkey, newTo_cons_of_mem hname, newTo_filter_ne hname]
    · rw [newTo_cons hname]
      by_cases hkey : pair.1 = ""
      · rw [kept_cons_of_empty hkey, kept_cons_of_empty hkey, ih]
      · rw [kept_cons hkey, kept_cons hkey, newTo_cons hname, ← ih]
        rw [newTo, newTo, List.filter_filter, List.filter_filter]
        simp only [Bool.and_comm]

/-- Behind pairs of which a map comes, only the pairs that are new to it count. -/
theorem ofRaw_append (h : ofRaw p = .ok b) (q : List (String × String)) :
    (ofRaw (p ++ q)).map entries = (ofRaw (newTo b q)).map fun c => b.entries ++ c.entries := by
  have hq := ofRaw_eq (newTo b q)
  rw [ofRaw, List.foldlM_append]
  change (ofRaw p >>= fun b => q.foldlM addRaw b).map entries = _
  rw [h]
  refine (foldlM_addRaw b q).trans ?_
  rw [newTo_kept, ← hq]
  cases ofRaw (newTo b q) <;> rfl

/-- Where a map comes of the further pairs by themselves, its entries with new names are added. -/
theorem exists_ofRaw_append (hp : ofRaw p = .ok b) (hq : ofRaw q = .ok c) :
    ∃ d, ofRaw (p ++ q) = .ok d ∧
      d.entries = b.entries ++ c.entries.filter fun entry => entry.1 ∉ b.names := by
  obtain ⟨hvalues, hentries⟩ := values_of_ofRaw hq
  have hnew : ∀ pair ∈ kept (newTo b q), IsValue pair.2 := by
    rw [← newTo_kept]
    exact fun pair hpair => hvalues pair (List.mem_filter.mp hpair).1
  obtain ⟨c', hc', hentries'⟩ := exists_ofRaw_of_values hnew
  have happend := ofRaw_append hp q
  rw [hc'] at happend
  obtain ⟨d, hd, hdentries⟩ := Outcome.map_eq_ok.mp happend
  refine ⟨d, hd, hdentries.trans (congrArg (b.entries ++ ·) ?_)⟩
  rw [hentries', hentries, ← newTo_kept, newTo, List.filter_map]
  rfl

/-- The kept pairs decide. A map comes of raw pairs if and only if the values of all kept pairs
stand for truth values; then its entries are those of the kept pairs, in their order, and no name
has two entries. Otherwise the first kept pair whose value does not is reported, with its key as it
is written. A pair that is not kept might as well not be there, whatever its value is. And behind
other pairs only those count whose names are new, so what comes of all of them is the map of the
first ones, with the entries added that the others have for new names. -/
theorem ofRaw_kept :
    (∀ pairs,
      ((∃ b, ofRaw pairs = .ok b) ↔ ∀ pair ∈ kept pairs, IsValue pair.2) ∧
      (∀ b, ofRaw pairs = .ok b →
        b.entries = (kept pairs).map (fun pair => (Text.lowercase pair.1, decide (pair.2 = "1"))) ∧
          b.names.Nodup) ∧
      ((¬∀ pair ∈ kept pairs, IsValue pair.2) →
        ∃ pair, FirstInvalid (kept pairs) pair ∧
          ofRaw pairs = .error (.invalidValue pair.1 pair.2))) ∧
    (∀ front pair back, Dropped front pair →
      ofRaw (front ++ pair :: back) = ofRaw (front ++ back)) ∧
    ∀ p q,
      (∀ e, ofRaw p = .error e → ofRaw (p ++ q) = .error e) ∧
      ∀ b, ofRaw p = .ok b →
        (ofRaw (p ++ q)).map entries =
          (ofRaw (newTo b q)).map (fun c => b.entries ++ c.entries) ∧
        ∀ c, ofRaw q = .ok c →
          ∃ d, ofRaw (p ++ q) = .ok d ∧
            d.entries = b.entries ++ c.entries.filter fun entry => entry.1 ∉ b.names := by
  refine ⟨fun pairs => ⟨⟨?_, ?_⟩, ?_, ?_⟩, ?_, fun p q => ⟨?_, fun b hb => ⟨?_, ?_⟩⟩⟩
  · rintro ⟨b, hb⟩
    exact (values_of_ofRaw hb).1
  · intro hvalues
    obtain ⟨b, hb, -⟩ := exists_ofRaw_of_values hvalues
    exact ⟨b, hb⟩
  · intro b hb
    exact ⟨(values_of_ofRaw hb).2, b.distinct⟩
  · intro hnot
    obtain ⟨pair, hpair⟩ := (values_or_firstInvalid (kept pairs)).resolve_left hnot
    exact ⟨pair, hpair, ofRaw_of_firstInvalid hpair⟩
  · exact fun front pair back hdropped => ofRaw_dropped hdropped back
  · intro e he
    rw [ofRaw, List.foldlM_append]
    exact Outcome.bind_eq_error.mpr (Or.inl he)
  · exact ofRaw_append hb q
  · exact fun c hc => exists_ofRaw_append hb hc

/-- Neither the missing key nor the second value of `x` is noticed, but the value of `Y` is. -/
example : ofRaw [("X", "1"), ("", "?"), ("x", "no"), ("Y", "2"), ("z", "3")] =
    .error (.invalidValue "Y" "2") := rfl

end BoolExpr.Bindings
