import BoolExpr.Json.Reader
import BoolExpr.Proofs.WrittenJson

/-!
Reading of JSON. Each reader is shown what it takes off the front of a text, whatever comes behind,
and every written form of a value is then read as that value. A number ends only where something
comes that cannot belong to it, and behind a value nothing but white space, a comma, a closing sign
or the end is met. So a text stands for one value at most.
-/
namespace BoolExpr.Json

open Text (hexValue? isDigit digitsValue)

def run {α : Type} (reader : Reader α) (cs : List Char) : Option (α × List Char) :=
  (reader cs).map fun r => (r.value, r.rest)

def Solid (cs : List Char) : Prop := ∀ c ∈ cs.head?, isSpace c = false

def EndsNumber (rest : List Char) : Prop :=
  ∀ c ∈ rest.head?, isDigit c = false ∧ c ≠ '.' ∧ c ≠ 'e' ∧ c ≠ 'E'

section Signs

variable {α : Type} {reader : Reader α} {cs rest : List Char} {a : α} {c d : Char}

theorem solid_cons (h : isSpace c = false) (cs : List Char) : Solid (c :: cs) := by
  intro d hd
  obtain rfl : c = d := by simpa using hd
  exact h

theorem skipSpace_blanks (before : Blanks) (h : Solid cs) : skipSpace (before.val ++ cs) = cs := by
  rw [skipSpace, List.dropWhile_append_of_pos before.property]
  cases cs with
  | nil => rfl
  | cons c cs => rw [List.dropWhile_cons_of_neg (by simp [h c rfl])]

theorem skipSpace_val (after : Blanks) : skipSpace after.val = [] := by
  have hnil : skipSpace (after.val ++ []) = [] := skipSpace_blanks after (by simp [Solid])
  rwa [List.append_nil] at hnil

theorem run_spaced (reader : Reader α) (cs : List Char) :
    run (spaced reader) cs = run reader (skipSpace cs) := by
  rw [run, run, spaced]
  cases reader (skipSpace cs) <;> rfl

theorem run_spaced_blanks (before : Blanks) (h : Solid cs) :
    run (spaced reader) (before.val ++ cs) = run reader cs := by
  rw [run_spaced, skipSpace_blanks before h]

theorem run_sign (c : Char) (rest : List Char) : run (sign c) (c :: rest) = some ((), rest) := by
  simp [run, sign]

theorem run_sign_of_ne (h : d ≠ c) (rest : List Char) : run (sign c) (d :: rest) = none := by
  simp [run, sign, h]

end Signs

section Strings

variable {cs ws rest : List Char} {c e : Char}

theorem run_units_plain (hquote : c ≠ '\x22') (hslash : c ≠ '\\') (hcontrol : 0x20 ≤ c.toNat) :
    run units (c :: rest) = (run units rest).map fun r => (c.toNat :: r.1, r.2) := by
  rw [run, units, run]
  · rw [if_neg (not_or.mpr ⟨hslash, by omega⟩)]
    cases units rest <;> rfl
  · exact fun h => hquote h
  · exact fun _ _ _ _ _ h => absurd h hslash
  · exact fun _ _ h => absurd h hslash

theorem run_units_letter (h : unescape? e = some c) :
    run units ('\\' :: e :: rest) = (run units rest).map fun r => (c.toNat :: r.1, r.2) := by
  rw [run, units, run]
  · rw [h]
    cases units rest <;> rfl
  · rintro _ _ _ _ _ rfl
    cases h

theorem run_units_code {x₃ x₂ x₁ x₀ : Char} {n₃ n₂ n₁ n₀ : Nat} (h₃ : hexValue? x₃ = some n₃)
    (h₂ : hexValue? x₂ = some n₂) (h₁ : hexValue? x₁ = some n₁) (h₀ : hexValue? x₀ = some n₀) :
    run units ('\\' :: 'u' :: x₃ :: x₂ :: x₁ :: x₀ :: rest) = (run units rest).map fun r =>
      ((4096 * n₃ + 256 * n₂ + 16 * n₁ + n₀) :: r.1, r.2) := by
  rw [run, units, run, h₃, h₂, h₁, h₀]
  cases units rest <;> rfl

theorem unescape?_of_mem (h : (e, c) ∈ letterEscapes) : unescape? e = some c := by
  simp only [letterEscapes, List.mem_cons, Prod.mk.injEq, List.not_mem_nil, or_false] at h
  rcases h with h | h | h | h | h | h | h | h <;> rw [h.1, h.2] <;> rfl

/-- The inside of a string is read as the code points of its text. -/
theorem run_units (h : Inside cs ws) (rest : List Char) :
    run units (ws ++ '\x22' :: rest) = some (cs.map Char.toNat, rest) := by
  induction h with
  | nil => rfl
  | plain hquote hslash hcontrol h ih =>
    rw [List.cons_append, run_units_plain hquote hslash hcontrol, ih]
    rfl
  | letter hescape h ih =>
    rw [List.cons_append, List.cons_append, run_units_letter (unescape?_of_mem hescape), ih]
    rfl
  | code h₃ h₂ h₁ h₀ hchar h ih =>
    simp only [List.cons_append]
    rw [run_units_code h₃ h₂ h₁ h₀, ih, ← hchar]
    rfl

/-- A character is no surrogate. -/
theorem isSurrogate_toNat (c : Char) :
    isHighSurrogate c.toNat = false ∧ isLowSurrogate c.toNat = false := by
  have hvalid : c.toNat < 0xD800 ∨ 0xDFFF < c.toNat ∧ c.toNat < 0x110000 := c.valid
  simp only [isHighSurrogate, isLowSurrogate, Bool.and_eq_false_iff, decide_eq_false_iff_not]
  omega

theorem joinSurrogates_map_toNat (cs : List Char) :
    joinSurrogates (cs.map Char.toNat) = some cs := by
  induction cs with
  | nil => rfl
  | cons c rest ih =>
    obtain ⟨hhigh, hlow⟩ := isSurrogate_toNat c
    cases rest with
    | nil => simp [joinSurrogates, hhigh, hlow]
    | cons d rest =>
      rw [List.map_cons] at ih
      simp [joinSurrogates, hhigh, hlow, ih]

theorem run_text_mark (cs : List Char) : run text ('\x22' :: cs) =
    (run units cs).map fun r => ((joinSurrogates r.1).map String.ofList, r.2) := by
  rw [run, text, run]
  cases units cs <;> rfl

theorem run_text {s : String} (h : Quoted s ws) (rest : List Char) :
    run text (ws ++ rest) = some (some s, rest) := by
  cases h with
  | marks h =>
    rw [List.append_assoc, List.cons_append, List.singleton_append, run_text_mark, run_units h,
      Option.map_some, joinSurrogates_map_toNat, Option.map_some, String.ofList_toList]

end Strings

section Numbers

variable {cs rest signs : List Char} {n : Nat} {c : Char}

theorem ne_of_isDigit {d : Char} (h : isDigit c = true) (hd : isDigit d = false) : c ≠ d := by
  rintro rfl
  rw [h] at hd
  cases hd

theorem isSpace_of_isDigit (h : isDigit c = true) : isSpace c = false := by
  have hblank : c ≠ ' ' := ne_of_isDigit h (by decide)
  have htab : c ≠ '\t' := ne_of_isDigit h (by decide)
  have hnewline : c ≠ '\n' := ne_of_isDigit h (by decide)
  have hreturn : c ≠ '\r' := ne_of_isDigit h (by decide)
  simp [isSpace, hblank, htab, hnewline, hreturn]

theorem takeWhile_digits (h : ∀ c ∈ cs, isDigit c = true) (hrest : EndsNumber rest) :
    (cs ++ rest).takeWhile isDigit = cs := by
  rw [List.takeWhile_append_of_pos h]
  cases rest with
  | nil => simp
  | cons c rest => rw [List.takeWhile_cons_of_neg (by simp [(hrest c rfl).1]), List.append_nil]

theorem wholePart_append (h : IsNumeral cs n) (hrest : EndsNumber rest) :
    wholePart (cs ++ rest) = cs := by
  by_cases hzero : cs.head? = some '0'
  · rw [h.leading hzero]
    rfl
  · rw [wholePart, takeWhile_digits h.digits hrest]
    rintro more hmore
    obtain ⟨c, tail, rfl⟩ := List.exists_cons_of_ne_nil h.ne_nil
    rw [List.cons_append, List.cons.injEq] at hmore
    exact hzero (by rw [hmore.1, List.head?_cons])

theorem fractionPart_ends (hrest : EndsNumber rest) : fractionPart rest = [] := by
  rw [fractionPart]
  rintro more rfl
  exact absurd rfl (hrest '.' rfl).2.1

theorem exponentPart_ends (hrest : EndsNumber rest) : exponentPart rest = [] := by
  cases rest with
  | nil => rfl
  | cons c rest =>
    obtain ⟨-, -, hlower, hupper⟩ := hrest c rfl
    rw [exponentPart, if_neg (not_or.mpr ⟨hlower, hupper⟩)]

/-- A numeral is read, with or without a minus sign before it. -/
theorem run_number (hsigns : signs = [] ∨ signs = ['-']) (h : IsNumeral cs n)
    (hrest : EndsNumber rest) : run number (signs ++ (cs ++ rest)) =
      some (.integer (if signs = [] then n else -n), rest) := by
  have hsign : ((signs ++ (cs ++ rest)).takeWhile (· = '-')).take 1 = signs := by
    obtain ⟨c, tail, rfl⟩ := List.exists_cons_of_ne_nil h.ne_nil
    have hc : c ≠ '-' := ne_of_isDigit (h.digits c (by simp)) (by decide)
    rcases hsigns with rfl | rfl <;> simp [hc]
  have hwhole : wholePart ((signs ++ (cs ++ rest)).drop signs.length) = cs := by
    rw [List.drop_left, wholePart_append h hrest]
  have hbehind : (signs ++ (cs ++ rest)).drop (signs.length + cs.length) = rest := by
    rw [← List.append_assoc, ← List.length_append, List.drop_left]
  simp only [run, number, hsign, hwhole, hbehind, fractionPart_ends hrest, List.length_nil,
    Nat.add_zero, exponentPart_ends hrest, h.value_eq]
  simp [h.ne_nil]

end Numbers

section Atoms

variable {cs ws rest : List Char} {n : Nat} {c : Char} {w : String} {j : Json}

theorem run_word (hne : w.toList ≠ []) (rest : List Char) :
    run (word w j) (w.toList ++ rest) = some (j, rest) := by
  simp [run, word, hne]

theorem run_word_of_not (h : w.toList.isPrefixOf cs = false) : run (word w j) cs = none := by
  simp [run, word, h]

theorem run_stringValue (cs : List Char) :
    run stringValue cs = (run text cs).map fun r => (r.1.elim .brokenString .string, r.2) := by
  rw [run, run, stringValue]
  cases text cs <;> rfl

theorem run_stringValue_of_ne (h : cs.head? ≠ some '\x22') : run stringValue cs = none := by
  rw [run_stringValue, run, text]
  · rfl
  · rintro _ rfl
    exact h rfl

theorem run_atom (cs : List Char) : run atom cs =
    (run stringValue cs <|> run (word "null" .null) cs <|> run (word "true" (.bool true)) cs <|>
      run (word "false" (.bool false)) cs <|> run (word "NaN" (.real "NaN")) cs <|>
      run (word "Infinity" (.real "Infinity")) cs <|>
      run (word "-Infinity" (.real "-Infinity")) cs <|> run number cs) := by
  simp [run, atom, Option.map_or]

theorem run_atom_string {s : String} (h : Quoted s ws) (rest : List Char) :
    run atom (ws ++ rest) = some (.string s, rest) := by
  rw [run_atom, run_stringValue, run_text h]
  rfl

theorem run_atom_null (rest : List Char) :
    run atom ("null".toList ++ rest) = some (.null, rest) := by
  rw [run_atom, run_stringValue_of_ne (by simp), run_word (by simp)]
  rfl

theorem run_atom_true (rest : List Char) :
    run atom ("true".toList ++ rest) = some (.bool true, rest) := by
  rw [run_atom, run_stringValue_of_ne (by simp), run_word_of_not (by simp [List.isPrefixOf]),
    run_word (by simp)]
  rfl

theorem run_atom_false (rest : List Char) :
    run atom ("false".toList ++ rest) = some (.bool false, rest) := by
  rw [run_atom, run_stringValue_of_ne (by simp), run_word_of_not (by simp [List.isPrefixOf]),
    run_word_of_not (by simp [List.isPrefixOf]), run_word (by simp)]
  rfl

theorem run_word_of_isDigit (hc : isDigit c = true)
    (hw : ∃ d, w.toList.head? = some d ∧ isDigit d = false) :
    run (word w j) (c :: cs) = none := by
  obtain ⟨d, hhead, hd⟩ := hw
  obtain ⟨ws, hws⟩ := List.head?_eq_some_iff.mp hhead
  refine run_word_of_not ?_
  rw [hws]
  simp [List.isPrefixOf, (ne_of_isDigit hc hd).symm]

/-- No word begins like a numeral, not even behind a minus sign. -/
theorem run_atom_number {signs : List Char} (hsigns : signs = [] ∨ signs = ['-'])
    (h : IsNumeral cs n) (hrest : EndsNumber rest) :
    run atom (signs ++ (cs ++ rest)) =
      some (.integer (if signs = [] then n else -n), rest) := by
  have hother : run atom (signs ++ (cs ++ rest)) = run number (signs ++ (cs ++ rest)) := by
    obtain ⟨c, tail, rfl⟩ := List.exists_cons_of_ne_nil h.ne_nil
    have hc : isDigit c = true := h.digits c (by simp)
    have hquote : c ≠ '\x22' := ne_of_isDigit hc (by decide)
    have hinfinity : 'I' ≠ c := (ne_of_isDigit hc (by decide)).symm
    rcases hsigns with rfl | rfl <;> rw [run_atom]
    · rw [List.nil_append, List.cons_append, run_stringValue_of_ne (by simp [hquote])]
      iterate 6 rw [run_word_of_isDigit hc ⟨_, rfl, by decide⟩]
      rfl
    · rw [run_stringValue_of_ne (by simp)]
      iterate 6 rw [run_word_of_not (by simp [List.isPrefixOf, hinfinity])]
      rfl
  rw [hother, run_number hsigns h hrest]

end Atoms

section Items

variable {α : Type} {item : Reader α} {cs rest : List Char} {finish c : Char}
  {slots : List (Slot α)}

def Closes (c : Char) : Prop := c = ']' ∨ c = '\x7d'

structure Opens (c : Char) : Prop where
  solid : isSpace c = false
  not_closing : ¬Closes c
  ne_mark : c ≠ '\uFEFF'

theorem opens_of (hspace : isSpace c = false) (h : c ≠ ']' ∧ c ≠ '\x7d' ∧ c ≠ '\uFEFF') :
    Opens c :=
  ⟨hspace, not_or.mpr ⟨h.1, h.2.1⟩, h.2.2⟩

def ReadsSlot (item : Reader α) (x : Slot α) : Prop :=
  (∃ c chars, x.chars = c :: chars ∧ Opens c) ∧ ∀ rest, EndsNumber rest →
    run item (x.before.val ++ (x.chars ++ rest)) = some (x.value, rest)

theorem endsNumber_cons (h : isDigit c = false ∧ c ≠ '.' ∧ c ≠ 'e' ∧ c ≠ 'E') (cs : List Char) :
    EndsNumber (c :: cs) := by
  intro d hd
  obtain rfl : c = d := by simpa using hd
  exact h

theorem endsNumber_blanks (after : Blanks) (h : EndsNumber rest) :
    EndsNumber (after.val ++ rest) := by
  obtain ⟨cs, hcs⟩ := after
  cases cs with
  | nil => exact h
  | cons c cs =>
    have hc : isSpace c = true := hcs c (by simp)
    simp only [isSpace, Bool.or_eq_true, decide_eq_true_eq] at hc
    refine endsNumber_cons ?_ _
    rcases hc with ((rfl | rfl) | rfl) | rfl <;> decide

theorem endsNumber_val (after : Blanks) : EndsNumber after.val := by
  have hnil : EndsNumber (after.val ++ []) := endsNumber_blanks after (by simp [EndsNumber])
  rwa [List.append_nil] at hnil

theorem run_separated (item : Reader α) (cs : List Char) :
    run (separated finish item) cs = (run item cs).bind fun first =>
      match run (spaced (sign finish)) first.2 with
      | some last => some ([first.1], last.2)
      | none => (run (spaced (sign ',')) first.2).bind fun comma =>
        (run (separated finish item) comma.2).map fun more => (first.1 :: more.1, more.2) := by
  rw [run, separated, run]
  cases item cs with
  | none => rfl
  | some first =>
    simp only [run, Option.map_some, bind, Option.bind]
    cases spaced (sign finish) first.rest with
    | some last => rfl
    | none =>
      cases spaced (sign ',') first.rest with
      | none => rfl
      | some comma =>
        simp only [Option.map_some, Option.map_none]
        cases separated finish item comma.rest <;> rfl

theorem run_items (item : Reader α) (cs : List Char) :
    run (items finish item) cs =
      match run (spaced (sign finish)) cs with
      | some last => some ([], last.2)
      | none => run (separated finish item) cs := by
  rw [run, items, run]
  cases spaced (sign finish) cs <;> rfl

theorem endsNumber_closing (h : Closes finish) (rest : List Char) :
    EndsNumber (finish :: rest) := by
  refine endsNumber_cons ?_ _
  rcases h with rfl | rfl <;> decide

theorem solid_closing (h : Closes finish) (rest : List Char) : Solid (finish :: rest) := by
  refine solid_cons ?_ _
  rcases h with rfl | rfl <;> decide

/-- The sign that comes behind white space, if it is the right one. -/
theorem run_sign_blanks (before : Blanks) (h : isSpace c = false) (rest : List Char) :
    run (spaced (sign c)) (before.val ++ c :: rest) = some ((), rest) := by
  rw [run_spaced_blanks before (solid_cons h rest), run_sign]

theorem run_sign_other (before : Blanks) {d : Char} (h : isSpace d = false) (hne : d ≠ c)
    (rest : List Char) : run (spaced (sign c)) (before.val ++ d :: rest) = none := by
  rw [run_spaced_blanks before (solid_cons h rest), run_sign_of_ne hne]

theorem run_separated_slots (hfinish : Closes finish) (x : Slot α) (more : List (Slot α))
    (h : ∀ y ∈ x :: more, ReadsSlot item y) (rest : List Char) :
    run (separated finish item) (commas ((x :: more).map Slot.text) ++ finish :: rest) =
      some ((x :: more).map Slot.value, rest) := by
  have hspace : isSpace finish = false := solid_closing hfinish rest finish rfl
  induction more generalizing x with
  | nil =>
    have hends := endsNumber_blanks x.after (endsNumber_closing hfinish rest)
    rw [List.map_singleton, commas, List.intercalate_singleton, Slot.text, List.append_assoc,
      List.append_assoc, run_separated, (h x (by simp)).2 _ hends, Option.bind_some,
      run_sign_blanks x.after hspace]
    rfl
  | cons y more ih =>
    have hends : EndsNumber (x.after.val ++ ',' ::
        (commas ((y :: more).map Slot.text) ++ finish :: rest)) :=
      endsNumber_blanks x.after (endsNumber_cons (by decide) _)
    have hne : ',' ≠ finish := by
      rcases hfinish with rfl | rfl <;> decide
    have hchars : commas ((x :: y :: more).map Slot.text) ++ finish :: rest =
        x.before.val ++ (x.chars ++ (x.after.val ++ ',' ::
          (commas ((y :: more).map Slot.text) ++ finish :: rest))) := by
      simp [commas, Slot.text, List.intercalate_cons_cons]
    rw [hchars, run_separated, (h x (by simp)).2 _ hends, Option.bind_some,
      run_sign_other x.after (by decide) hne]
    dsimp only
    rw [run_sign_blanks x.after (by decide), Option.bind_some,
      ih y (fun z hz => h z (List.mem_cons_of_mem x hz))]
    rfl

/-- What is written in slots, with commas between them and the closing sign behind, is read as the
list of what they stand for. -/
theorem run_items_slots (hfinish : Closes finish) (hne : slots ≠ [])
    (h : ∀ x ∈ slots, ReadsSlot item x) (rest : List Char) :
    run (items finish item) (commas (slots.map Slot.text) ++ finish :: rest) =
      some (slots.map Slot.value, rest) := by
  obtain ⟨x, more, rfl⟩ := List.exists_cons_of_ne_nil hne
  obtain ⟨c, chars, hchars, hopens⟩ := (h x (by simp)).1
  obtain ⟨tail, htail⟩ : ∃ tail, commas ((x :: more).map Slot.text) ++ finish :: rest =
      x.before.val ++ c :: tail := by
    cases more <;> simp [commas, Slot.text, hchars, List.intercalate_cons_cons]
  have hclosing : run (spaced (sign finish))
      (commas ((x :: more).map Slot.text) ++ finish :: rest) = none := by
    rw [htail]
    refine run_sign_other x.before hopens.solid ?_ tail
    rintro rfl
    exact hopens.not_closing hfinish
  rw [run_items, hclosing]
  exact run_separated_slots hfinish x more h rest

theorem run_items_blanks (hfinish : Closes finish) (inside : Blanks) (rest : List Char) :
    run (items finish item) (inside.val ++ finish :: rest) = some ([], rest) := by
  rw [run_items, run_sign_blanks inside (solid_closing hfinish rest finish rfl)]

end Items

namespace Member

/-- A member as one thing that is written, with the white space around all of it. -/
def slot (m : Member) : Slot (Option String × Json) :=
  ⟨(some m.key.value, m.value.value), m.key.before,
    m.key.chars ++ (m.key.after.val ++ ':' :: (m.value.before.val ++ m.value.chars)),
    m.value.after⟩

theorem text_slot (m : Member) : m.slot.text = m.text := by
  simp [slot, Slot.text, text]

end Member

section Values

variable {cs rest : List Char} {reader : Reader Json} {m : Member} {j : Json} {c : Char}
  {levels : Nat}

theorem exists_of_quoted {s : String} (h : Quoted s cs) : ∃ chars, cs = '\x22' :: chars := by
  cases h with
  | marks h => exact ⟨_, rfl⟩

theorem run_member (reader : Reader Json) (cs : List Char) :
    run (member reader) cs = (run (spaced text) cs).bind fun key =>
      (run (spaced (sign ':')) key.2).bind fun colon =>
        (run reader colon.2).map fun v => ((key.1, v.1), v.2) := by
  rw [run, member, run]
  cases spaced text cs with
  | none => rfl
  | some key =>
    simp only [run, Option.map_some, bind, Option.bind]
    cases spaced (sign ':') key.rest with
    | none => rfl
    | some colon =>
      simp only [Option.map_some]
      cases reader colon.rest <;> rfl

theorem readsSlot_member (hkey : Quoted m.key.value m.key.chars)
    (hvalue : ∀ rest, EndsNumber rest →
      run reader (m.value.before.val ++ (m.value.chars ++ rest)) = some (m.value.value, rest)) :
    ReadsSlot (member reader) m.slot := by
  obtain ⟨chars, hchars⟩ := exists_of_quoted hkey
  refine ⟨⟨'\x22', _, by rw [Member.slot, hchars]; rfl,
    opens_of (by decide) (by decide)⟩, fun rest hrest => ?_⟩
  have hsolid : ∀ rest, Solid (m.key.chars ++ rest) := by
    intro rest
    rw [hchars]
    exact solid_cons (by decide) _
  simp only [Member.slot, List.append_assoc, List.cons_append]
  rw [run_member, run_spaced_blanks _ (hsolid _), run_text hkey, Option.bind_some,
    run_sign_blanks _ (by decide), Option.bind_some, hvalue rest hrest]
  rfl

theorem namedMembers_slots (members : List Member) :
    namedMembers (members.map fun m => m.slot.value) = members.map Member.entry := by
  rw [namedMembers, List.filterMap_map, ← List.filterMap_eq_map]
  rfl

theorem run_value_array (before : Blanks) (levels : Nat) (cs : List Char) :
    run (value (levels + 1)) (before.val ++ '[' :: cs) =
      (run (items ']' (value levels)) cs).map fun r => (.array r.1, r.2) := by
  rw [value, run_spaced_blanks before (solid_cons (by decide) cs), run, run]
  show Option.map _ (Option.map _ (items ']' (value levels) cs)) = _
  cases items ']' (value levels) cs <;> rfl

theorem run_value_object (before : Blanks) (levels : Nat) (cs : List Char) :
    run (value (levels + 1)) (before.val ++ '\x7b' :: cs) =
      (run (items '\x7d' (member (value levels))) cs).map fun r =>
        (.object (namedMembers r.1), r.2) := by
  rw [value, run_spaced_blanks before (solid_cons (by decide) cs), run, run]
  show Option.map _ (Option.map _ (items '\x7d' (member (value levels)) cs)) = _
  cases items '\x7d' (member (value levels)) cs <;> rfl

theorem run_value_atom (before : Blanks) (hhead : cs.head? = some c)
    (h : isSpace c = false ∧ c ≠ '[' ∧ c ≠ '\x7b') :
    run (value levels) (before.val ++ cs) = run atom cs := by
  obtain ⟨cs, rfl⟩ := List.head?_eq_some_iff.mp hhead
  obtain ⟨hspace, harray, hobject⟩ := h
  have hsolid := solid_cons hspace cs
  cases levels with
  | zero => rw [value, run_spaced_blanks before hsolid]
  | succ levels =>
    rw [value, run_spaced_blanks before hsolid, run, run]
    simp [harray, hobject]

theorem run_value_number {signs : List Char} {n : Nat} (before : Blanks)
    (hsigns : signs = [] ∨ signs = ['-']) (h : IsNumeral cs n) (hrest : EndsNumber rest) :
    run (value levels) (before.val ++ (signs ++ (cs ++ rest))) =
      some (.integer (if signs = [] then n else -n), rest) := by
  rw [← run_atom_number hsigns h hrest]
  obtain ⟨c, tail, rfl⟩ := List.exists_cons_of_ne_nil h.ne_nil
  have hc : isDigit c = true := h.digits c (by simp)
  rcases hsigns with rfl | rfl
  · exact run_value_atom before rfl
      ⟨isSpace_of_isDigit hc, ne_of_isDigit hc (by decide), ne_of_isDigit hc (by decide)⟩
  · exact run_value_atom before rfl (by decide)

theorem exists_of_written (h : Written j cs) : ∃ c chars, cs = c :: chars ∧ Opens c := by
  cases h with
  | null => exact ⟨'n', _, by simp; rfl, opens_of (by decide) (by decide)⟩
  | true => exact ⟨'t', _, by simp; rfl, opens_of (by decide) (by decide)⟩
  | false => exact ⟨'f', _, by simp; rfl, opens_of (by decide) (by decide)⟩
  | natural h =>
    obtain ⟨c, tail, rfl⟩ := List.exists_cons_of_ne_nil h.ne_nil
    have hc : isDigit c = true := h.digits c (by simp)
    exact ⟨c, tail, rfl, opens_of (isSpace_of_isDigit hc)
      ⟨ne_of_isDigit hc (by decide), ne_of_isDigit hc (by decide), ne_of_isDigit hc (by decide)⟩⟩
  | negative h => exact ⟨'-', _, rfl, opens_of (by decide) (by decide)⟩
  | string h =>
    obtain ⟨chars, rfl⟩ := exists_of_quoted h
    exact ⟨'\x22', chars, rfl, opens_of (by decide) (by decide)⟩
  | emptyArray inside => exact ⟨'[', _, rfl, opens_of (by decide) (by decide)⟩
  | array hne h => exact ⟨'[', _, rfl, opens_of (by decide) (by decide)⟩
  | emptyObject inside => exact ⟨'\x7b', _, rfl, opens_of (by decide) (by decide)⟩
  | object hne hkeys h => exact ⟨'\x7b', _, rfl, opens_of (by decide) (by decide)⟩

/-- One level is for the signs around a list or an object, the others are for what is inside. -/
theorem exists_inner {first last : Char} (h : (first :: cs ++ [last]).length ≤ levels) :
    ∃ inner, levels = inner + 1 ∧ cs.length ≤ inner := by
  rw [List.length_append, List.length_cons, List.length_singleton] at h
  exact ⟨levels - 1, by omega, by omega⟩

theorem length_le_commas {chars : List Char} {texts : List (List Char)} (h : chars ∈ texts) :
    chars.length ≤ (commas texts).length := by
  induction texts with
  | nil => cases h
  | cons first more ih =>
    cases more with
    | nil =>
      obtain rfl : chars = first := by simpa using h
      simp [commas]
    | cons second more =>
      rw [commas, List.intercalate_cons_cons, List.length_append, List.length_append]
      rcases List.mem_cons.mp h with rfl | h
      · omega
      · have hmore : chars.length ≤ (commas (second :: more)).length := ih h
        rw [commas] at hmore
        omega

theorem length_slot_le {x : Slot Json} {slots : List (Slot Json)} (h : x ∈ slots) :
    x.chars.length ≤ (commas (slots.map Slot.text)).length := by
  have htext : x.text.length ≤ (commas (slots.map Slot.text)).length :=
    length_le_commas (List.mem_map.mpr ⟨x, h, rfl⟩)
  simp only [Slot.text, List.length_append] at htext
  omega

theorem length_member_le {members : List Member} (h : m ∈ members) :
    m.value.chars.length ≤ (commas (members.map Member.text)).length := by
  have htext : m.text.length ≤ (commas (members.map Member.text)).length :=
    length_le_commas (List.mem_map.mpr ⟨m, h, rfl⟩)
  simp only [Member.text, Slot.text, List.length_append, List.length_cons] at htext
  omega

/-- Every written form of a value is read as the value, up to where it ends. -/
theorem run_value (h : Written j cs) (hlevels : cs.length ≤ levels) (before : Blanks)
    (hrest : EndsNumber rest) :
    run (value levels) (before.val ++ (cs ++ rest)) = some (j, rest) := by
  induction h generalizing levels before rest with
  | null => rw [run_value_atom before rfl (by decide), run_atom_null]
  | true => rw [run_value_atom before rfl (by decide), run_atom_true]
  | false => rw [run_value_atom before rfl (by decide), run_atom_false]
  | natural h => exact run_value_number before (.inl rfl) h hrest
  | negative h => exact run_value_number before (.inr rfl) h hrest
  | string h =>
    have hatom := run_atom_string h rest
    obtain ⟨chars, rfl⟩ := exists_of_quoted h
    rw [run_value_atom before rfl (by decide), hatom]
  | emptyArray inside =>
    obtain ⟨inner, rfl, -⟩ := exists_inner hlevels
    rw [List.append_assoc, List.cons_append, List.singleton_append, run_value_array,
      run_items_blanks (.inl rfl)]
    rfl
  | array hne h ih =>
    obtain ⟨inner, rfl, hinner⟩ := exists_inner hlevels
    rw [List.append_assoc, List.cons_append, List.singleton_append, run_value_array,
      run_items_slots (.inl rfl) hne]
    · rfl
    · intro x hx
      have hlength := Nat.le_trans (length_slot_le hx) hinner
      exact ⟨exists_of_written (h x hx), fun rest hrest => ih x hx hlength x.before hrest⟩
  | emptyObject inside =>
    obtain ⟨inner, rfl, -⟩ := exists_inner hlevels
    rw [List.append_assoc, List.cons_append, List.singleton_append, run_value_object,
      run_items_blanks (.inr rfl)]
    rfl
  | @object members hne hkeys h ih =>
    obtain ⟨inner, rfl, hinner⟩ := exists_inner hlevels
    have htexts : members.map Member.text = (members.map Member.slot).map Slot.text := by
      rw [List.map_map]
      exact List.map_congr_left fun m _ => m.text_slot.symm
    rw [List.append_assoc, List.cons_append, List.singleton_append, run_value_object, htexts,
      run_items_slots (.inr rfl) (by simpa using hne), Option.map_some, List.map_map]
    · exact congrArg (fun ms => some (Json.object ms, rest)) (namedMembers_slots members)
    · intro x hx
      obtain ⟨m, hm, rfl⟩ := List.mem_map.mp hx
      have hlength := Nat.le_trans (length_member_le hm) hinner
      exact readsSlot_member (hkeys m hm) fun rest hrest =>
        ih m hm hlength m.value.before hrest

def whole? (cs : List Char) : Option Json :=
  (run (value cs.length) cs).bind fun whole =>
    match skipSpace whole.2 with
    | [] => some whole.1
    | _ => none

theorem parse?_of_head {source : String} (h : source.toList.head? ≠ some '\uFEFF') :
    parse? source = whole? source.toList := by
  have hread : ∀ cs, cs = source.toList → (do
      let whole ← value cs.length cs
      match skipSpace whole.rest with
      | [] => return whole.value
      | _ => none) = whole? source.toList := by
    rintro _ rfl
    rw [whole?, run]
    cases value source.toList.length source.toList <;> rfl
  refine hread _ ?_
  split
  · rename_i hsource
    exact absurd (by rw [hsource]; rfl) h
  · rfl

theorem head?_ne_mark (h : Written j cs) (before : Blanks) :
    (before.val ++ (cs ++ rest)).head? ≠ some '\uFEFF' := by
  obtain ⟨blanks, hblanks⟩ := before
  cases blanks with
  | nil =>
    obtain ⟨c, chars, rfl, hopens⟩ := exists_of_written h
    simpa using hopens.ne_mark
  | cons d blanks =>
    have hspace : isSpace d = true := hblanks d (by simp)
    intro hd
    obtain rfl : d = '\uFEFF' := by simpa using hd
    exact absurd hspace (by decide)

/-- Reading finds the value of which a text is a written form. -/
theorem parse?_of_isText {source : String} (h : IsText source.toList j) :
    parse? source = some j := by
  obtain ⟨⟨j, before, chars, after⟩, rfl, htext, hwritten⟩ := h
  rw [Slot.text, List.append_assoc] at htext
  have hhead : source.toList.head? ≠ some '\uFEFF' := by
    rw [← htext]
    exact head?_ne_mark hwritten before
  have hlength : chars.length ≤ source.toList.length := by
    rw [← htext]
    simp only [List.length_append]
    omega
  have hread := run_value hwritten hlength before (endsNumber_val after)
  dsimp only at htext hread
  rw [htext] at hread
  rw [parse?_of_head hhead, whole?, hread, Option.bind_some]
  simp only [skipSpace_val]

/-- A text is a written form of one value at most. -/
theorem isText_unique {i : Json} (hi : IsText cs i) (hj : IsText cs j) : i = j := by
  have hsource : (String.ofList cs).toList = cs := String.toList_ofList
  rw [← hsource] at hi hj
  exact Option.some.inj ((parse?_of_isText hi).symm.trans (parse?_of_isText hj))

end Values

end BoolExpr.Json
