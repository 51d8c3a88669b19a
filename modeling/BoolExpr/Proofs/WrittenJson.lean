import BoolExpr.Json.Printer
import BoolExpr.Json.Reader

/-!
The written forms of JSON values. White space may stand around every value and sign, a string may
escape any character, and a whole number has no zeros at its front. The grammar here has no
fractions, no exponents and no pairs of surrogates, so what it admits is JSON by every standard. The
main statements are that the form with a line for every item and member is admitted, and the compact
one too, and that both are written forms of the value from which they were made.
-/
namespace BoolExpr.Json

open Text (hexDigits hexValue? hexValue?_digitChar isDigit digitsValue)

abbrev Blanks : Type := { cs : List Char // ∀ c ∈ cs, isSpace c = true }

namespace Blanks

def empty : Blanks := ⟨[], by simp⟩

def space : Blanks :=
  ⟨[' '], by
    intro c hc
    rw [List.mem_singleton.mp hc]
    decide⟩

def newline (level : Nat) : Blanks :=
  ⟨Json.newline level, by
    intro c hc
    rcases List.mem_cons.mp hc with rfl | hc
    · decide
    · rw [List.eq_of_mem_replicate hc]
      decide⟩

end Blanks

structure Slot (α : Type) where
  value : α
  before : Blanks
  chars : List Char
  after : Blanks

def Slot.text {α : Type} (x : Slot α) : List Char := x.before.val ++ x.chars ++ x.after.val

structure Member where
  key : Slot String
  value : Slot Json

namespace Member

def entry (m : Member) : String × Json := (m.key.value, m.value.value)

def text (m : Member) : List Char := m.key.text ++ ':' :: m.value.text

end Member

def letterEscapes : List (Char × Char) :=
  [('\x22', '\x22'), ('\\', '\\'), ('/', '/'), ('b', '\x08'), ('f', '\x0c'), ('n', '\n'),
    ('r', '\r'), ('t', '\t')]

/-- The inside of a string: a text, and a way to write it. -/
inductive Inside : List Char → List Char → Prop
  | nil : Inside [] []
  | plain {c : Char} {cs ws : List Char} (hquote : c ≠ '\x22') (hslash : c ≠ '\\')
      (hcontrol : 0x20 ≤ c.toNat) (h : Inside cs ws) : Inside (c :: cs) (c :: ws)
  | letter {e c : Char} {cs ws : List Char} (hescape : (e, c) ∈ letterEscapes)
      (h : Inside cs ws) : Inside (c :: cs) ('\\' :: e :: ws)
  | code {c x₃ x₂ x₁ x₀ : Char} {n₃ n₂ n₁ n₀ : Nat} {cs ws : List Char}
      (h₃ : hexValue? x₃ = some n₃) (h₂ : hexValue? x₂ = some n₂) (h₁ : hexValue? x₁ = some n₁)
      (h₀ : hexValue? x₀ = some n₀) (hchar : c.toNat = 4096 * n₃ + 256 * n₂ + 16 * n₁ + n₀)
      (h : Inside cs ws) : Inside (c :: cs) ('\\' :: 'u' :: x₃ :: x₂ :: x₁ :: x₀ :: ws)

inductive Quoted : String → List Char → Prop
  | marks {s : String} {ws : List Char} (h : Inside s.toList ws) :
      Quoted s ('\x22' :: ws ++ ['\x22'])

/-- The digits of a number, the first of which is zero only for zero itself. -/
structure IsNumeral (cs : List Char) (n : Nat) : Prop where
  digits : ∀ c ∈ cs, isDigit c = true
  ne_nil : cs ≠ []
  leading : cs.head? = some '0' → cs = ['0']
  value_eq : digitsValue cs = n

def commas (texts : List (List Char)) : List Char := List.intercalate [','] texts

/-- A value, and a way to write it without white space around it. -/
inductive Written : Json → List Char → Prop
  | null : Written .null "null".toList
  | true : Written (.bool true) "true".toList
  | false : Written (.bool false) "false".toList
  | natural {n : Nat} {cs : List Char} (h : IsNumeral cs n) : Written (.integer n) cs
  | negative {n : Nat} {cs : List Char} (h : IsNumeral cs n) : Written (.integer (-n)) ('-' :: cs)
  | string {s : String} {cs : List Char} (h : Quoted s cs) : Written (.string s) cs
  | emptyArray (inside : Blanks) : Written (.array []) ('[' :: inside.val ++ [']'])
  | array {slots : List (Slot Json)} (hne : slots ≠ [])
      (h : ∀ x ∈ slots, Written x.value x.chars) :
      Written (.array (slots.map Slot.value)) ('[' :: commas (slots.map Slot.text) ++ [']'])
  | emptyObject (inside : Blanks) : Written (.object []) ('\x7b' :: inside.val ++ ['\x7d'])
  | object {members : List Member} (hne : members ≠ [])
      (hkeys : ∀ m ∈ members, Quoted m.key.value m.key.chars)
      (h : ∀ m ∈ members, Written m.value.value m.value.chars) :
      Written (.object (members.map Member.entry))
        ('\x7b' :: commas (members.map Member.text) ++ ['\x7d'])

/-- A whole text is a written form of a value, with white space around it. -/
def IsText (cs : List Char) (j : Json) : Prop :=
  ∃ x : Slot Json, x.value = j ∧ x.text = cs ∧ Written x.value x.chars

section Printing

theorem inside_hexDigits {c : Char} {cs ws : List Char} (hc : c.toNat < 0x10000)
    (h : Inside cs ws) : Inside (c :: cs) ('\\' :: 'u' :: hexDigits 4 c.toNat ++ ws) :=
  .code (hexValue?_digitChar (Nat.mod_lt _ (by decide)))
    (hexValue?_digitChar (Nat.mod_lt _ (by decide)))
    (hexValue?_digitChar (Nat.mod_lt _ (by decide)))
    (hexValue?_digitChar (Nat.mod_lt _ (by decide))) (by omega) h

theorem inside_escapeChar (c : Char) {cs ws : List Char} (h : Inside cs ws) :
    Inside (c :: cs) (escapeChar c ++ ws) := by
  unfold escapeChar
  iterate 7
    split
    · rename_i hc
      exact .letter (by simp [letterEscapes, hc]) h
  split
  · exact inside_hexDigits (by omega) h
  · exact .plain (by assumption) (by assumption) (by omega) h

theorem inside_escaped (cs : List Char) : Inside cs (cs.flatMap escapeChar) := by
  induction cs with
  | nil => exact .nil
  | cons c rest ih => exact inside_escapeChar c ih

theorem quoted_printString (s : String) : Quoted s (printString s) :=
  .marks (inside_escaped s.toList)

theorem head?_toDigits {n : Nat} (h : n ≠ 0) : (Nat.toDigits 10 n).head? ≠ some '0' := by
  induction n using Nat.strongRecOn with
  | ind n ih =>
    by_cases hn : n < 10
    · rw [Nat.toDigits_of_lt_base hn]
      simpa using h
    · rw [Nat.toDigits_of_base_le (by decide) (by omega), List.head?_append,
        List.head?_eq_some_head Nat.toDigits_ne_nil, Option.some_or,
        ← List.head?_eq_some_head]
      exact ih (n / 10) (by omega) (by omega)

theorem isNumeral_repr (n : Nat) : IsNumeral n.repr.toList n := by
  rw [Nat.toList_repr]
  refine ⟨fun c hc => ?_, Nat.toDigits_ne_nil, fun hzero => ?_, ?_⟩
  · have hdigit : c.isDigit = true := Nat.isDigit_of_mem_toDigits (by decide) (by decide) hc
    simpa [isDigit, Char.isDigit, Char.le_def] using hdigit
  · by_cases hn : n = 0
    · rw [hn, Nat.toDigits_zero]
    · exact absurd hzero (head?_toDigits hn)
  · rw [digitsValue, ← Nat.ofDigitChars_eq_foldl, Nat.ofDigitChars_ten_toDigits]

theorem written_toString (n : Int) : Written (.integer n) (toString n).toList := by
  rw [Int.toString_eq_repr, Int.repr_eq_if]
  split
  · rename_i hn
    have hwritten := Written.natural (isNumeral_repr n.toNat)
    rwa [Int.toNat_of_nonneg hn] at hwritten
  · rename_i hn
    have hwritten := Written.negative (isNumeral_repr (-n).toNat)
    rw [Int.toNat_of_nonneg (by omega), Int.neg_neg] at hwritten
    simpa using hwritten

/-- Values of which each part has a written form: there is no number that is kept as it is written,
and no string that is no text. -/
inductive Plain : Json → Prop
  | null : Plain .null
  | bool (value : Bool) : Plain (.bool value)
  | integer (value : Int) : Plain (.integer value)
  | string (value : String) : Plain (.string value)
  | array {items : List Json} (h : ∀ item ∈ items, Plain item) : Plain (.array items)
  | object {members : List (String × Json)} (h : ∀ m ∈ members, Plain m.2) :
      Plain (.object members)

variable {α β : Type} {level : Nat} {finish : Char} {last : Blanks}

/-- The slots of things that follow each other. Only after the last one there is white space. -/
def spread (last : Blanks) (slot : Blanks → α → β) : α → List α → List β
  | x, [] => [slot last x]
  | x, y :: rest => slot .empty x :: spread last slot y rest

theorem spread_ne_nil {slot : Blanks → α → β} (x : α) (rest : List α) :
    spread last slot x rest ≠ [] := by
  cases rest <;> exact List.cons_ne_nil _ _

theorem exists_of_mem_spread {slot : Blanks → α → β} {x : α} {rest : List α} {b : β}
    (h : b ∈ spread last slot x rest) : ∃ after, ∃ y ∈ x :: rest, b = slot after y := by
  induction rest generalizing x with
  | nil => exact ⟨_, x, by simp, List.mem_singleton.mp h⟩
  | cons y rest ih =>
    rcases List.mem_cons.mp h with rfl | h
    · exact ⟨_, x, by simp, rfl⟩
    · obtain ⟨after, z, hz, rfl⟩ := ih h
      exact ⟨after, z, List.mem_cons_of_mem _ hz, rfl⟩

theorem map_spread {slot : Blanks → α → β} {value : β → α}
    (h : ∀ after x, value (slot after x) = x) (x : α) (rest : List α) :
    (spread last slot x rest).map value = x :: rest := by
  induction rest generalizing x with
  | nil => rw [spread, List.map_singleton, h]
  | cons y rest ih => rw [spread, List.map_cons, h, ih]

/-- Items that are written one after the other have commas between them. Here `tail` has the items
after the first one, each behind a comma, and then the closing sign. -/
theorem commas_spread {slot : Blanks → α → β} {text : β → List Char} {body : α → List Char}
    {tail : List α → List Char} (htext : ∀ after x, text (slot after x) = body x ++ after.val)
    (hnil : tail [] = last.val ++ [finish])
    (hcons : ∀ y rest, tail (y :: rest) = ',' :: (body y ++ tail rest)) (x : α) (rest : List α) :
    commas ((spread last slot x rest).map text) ++ [finish] = body x ++ tail rest := by
  induction rest generalizing x with
  | nil =>
    rw [hnil, spread, List.map_singleton, commas, List.intercalate_singleton, htext,
      List.append_assoc]
  | cons y rest ih =>
    have hne : (spread last slot y rest).map text ≠ [] := by simpa using spread_ne_nil y rest
    rw [hcons, spread, List.map_cons, htext, commas, List.intercalate_cons_of_ne_nil hne]
    have hrest : [','].intercalate ((spread last slot y rest).map text) ++ [finish] =
        body y ++ tail rest := ih y
    simp only [List.append_assoc, hrest]
    rfl

theorem written_array (slot : Blanks → Json → Slot Json) {body : Json → List Char}
    {tail : List Json → List Char} {first : Json} {more : List Json}
    (hvalue : ∀ after item, (slot after item).value = item)
    (htext : ∀ after item, (slot after item).text = body item ++ after.val)
    (hnil : tail [] = last.val ++ [']'])
    (hcons : ∀ y rest, tail (y :: rest) = ',' :: (body y ++ tail rest))
    (h : ∀ after, ∀ item ∈ first :: more, Written item (slot after item).chars) :
    Written (.array (first :: more)) ('[' :: (body first ++ tail more)) := by
  have hwritten : Written (.array ((spread last slot first more).map Slot.value))
      ('[' :: commas ((spread last slot first more).map Slot.text) ++ [']']) := by
    refine .array (spread_ne_nil first more) fun x hx => ?_
    obtain ⟨after, item, hitem, rfl⟩ := exists_of_mem_spread hx
    rw [hvalue]
    exact h after item hitem
  rw [map_spread hvalue, List.cons_append, commas_spread htext hnil hcons] at hwritten
  exact hwritten

theorem written_object (slot : Blanks → String × Json → Member)
    {body : String × Json → List Char} {tail : List (String × Json) → List Char}
    {first : String × Json} {more : List (String × Json)}
    (hentry : ∀ after m, (slot after m).entry = m)
    (htext : ∀ after m, (slot after m).text = body m ++ after.val)
    (hnil : tail [] = last.val ++ ['\x7d'])
    (hcons : ∀ y rest, tail (y :: rest) = ',' :: (body y ++ tail rest))
    (hkey : ∀ after m, (slot after m).key.chars = printString m.1)
    (h : ∀ after, ∀ m ∈ first :: more, Written m.2 (slot after m).value.chars) :
    Written (.object (first :: more)) ('\x7b' :: (body first ++ tail more)) := by
  have hwritten : Written (.object ((spread last slot first more).map Member.entry))
      ('\x7b' :: commas ((spread last slot first more).map Member.text) ++ ['\x7d']) := by
    refine .object (spread_ne_nil first more) (fun x hx => ?_) fun x hx => ?_
    · obtain ⟨after, m, -, rfl⟩ := exists_of_mem_spread hx
      have hname : (slot after m).key.value = m.1 := congrArg Prod.fst (hentry after m)
      rw [hname, hkey]
      exact quoted_printString m.1
    · obtain ⟨after, m, hm, rfl⟩ := exists_of_mem_spread hx
      have hinside : (slot after m).value.value = m.2 := congrArg Prod.snd (hentry after m)
      rw [hinside]
      exact h after m hm
  rw [map_spread hentry, List.cons_append, commas_spread htext hnil hcons] at hwritten
  exact hwritten

theorem written_bool (value : Bool) : Written (.bool value) (printAtom (.bool value)) := by
  cases value with
  | true => exact .true
  | false => exact .false

section Indented

def itemSlot (level : Nat) (after : Blanks) (item : Json) : Slot Json :=
  ⟨item, .newline (level + 1), indentedChars (level + 1) item, after⟩

def memberSlot (level : Nat) (after : Blanks) (m : String × Json) : Member :=
  ⟨⟨m.1, .newline (level + 1), printString m.1, .empty⟩,
    ⟨m.2, .space, indentedChars (level + 1) m.2, after⟩⟩

theorem text_memberSlot (level : Nat) (after : Blanks) (m : String × Json) :
    (memberSlot level after m).text = newline (level + 1) ++ printString m.1 ++ ':' :: ' ' ::
      indentedChars (level + 1) m.2 ++ after.val := by
  simp [Member.text, memberSlot, Slot.text, Blanks.newline, Blanks.space, Blanks.empty]

theorem written_indentedArray {items : List Json}
    (h : ∀ item ∈ items, Written item (indentedChars (level + 1) item)) :
    Written (.array items) (indentedChars level (.array items)) := by
  cases items with
  | nil =>
    rw [indentedChars]
    exact .emptyArray .empty
  | cons first more =>
    have hlast : indentedItems level [] = (Blanks.newline level).val ++ [']'] := by
      rw [indentedItems]
      rfl
    have hwritten := written_array (itemSlot level) (fun _ _ => rfl) (fun _ _ => rfl) hlast
      (fun y rest => by rw [indentedItems]; rfl) fun _ => h
    rw [indentedChars]
    simpa using hwritten

theorem written_indentedObject {members : List (String × Json)}
    (h : ∀ m ∈ members, Written m.2 (indentedChars (level + 1) m.2)) :
    Written (.object members) (indentedChars level (.object members)) := by
  cases members with
  | nil =>
    rw [indentedChars]
    exact .emptyObject .empty
  | cons first more =>
    have hlast : indentedMembers level [] = (Blanks.newline level).val ++ ['\x7d'] := by
      rw [indentedMembers]
      rfl
    have hwritten := written_object (memberSlot level) (fun _ _ => rfl) (text_memberSlot level)
      hlast (fun y rest => by rw [indentedMembers]; simp) (fun _ _ => rfl) fun _ => h
    rw [indentedChars]
    simpa using hwritten

theorem written_indentedChars {j : Json} (h : Plain j) (level : Nat) :
    Written j (indentedChars level j) := by
  induction h generalizing level with
  | null =>
    simp only [indentedChars]
    exact .null
  | bool value =>
    simp only [indentedChars]
    exact written_bool value
  | integer value =>
    simp only [indentedChars]
    exact written_toString value
  | string value =>
    simp only [indentedChars]
    exact .string (quoted_printString value)
  | array h ih => exact written_indentedArray fun item hitem => ih item hitem (level + 1)
  | object h ih => exact written_indentedObject fun m hm => ih m hm (level + 1)

/-- The form with a line for every item and member is JSON, and it stands for the value. -/
theorem isText_indented {j : Json} (h : Plain j) (after : Blanks) :
    IsText (j.indented.toList ++ after.val) j :=
  ⟨⟨j, .empty, indentedChars 0 j, after⟩, rfl, by simp [Slot.text, indented, Blanks.empty],
    written_indentedChars h 0⟩

end Indented

section Compact

def compactSlot (after : Blanks) (item : Json) : Slot Json :=
  ⟨item, .empty, compactChars item, after⟩

def compactMember (after : Blanks) (m : String × Json) : Member :=
  ⟨⟨m.1, .empty, printString m.1, .empty⟩, ⟨m.2, .empty, compactChars m.2, after⟩⟩

theorem text_compactMember (after : Blanks) (m : String × Json) :
    (compactMember after m).text = printString m.1 ++ ':' :: compactChars m.2 ++ after.val := by
  simp [Member.text, compactMember, Slot.text, Blanks.empty]

theorem written_compactArray {items : List Json}
    (h : ∀ item ∈ items, Written item (compactChars item)) :
    Written (.array items) (compactChars (.array items)) := by
  cases items with
  | nil =>
    rw [compactChars]
    exact .emptyArray .empty
  | cons first more =>
    have hlast : compactItems [] = Blanks.empty.val ++ [']'] := by
      rw [compactItems]
      rfl
    have hwritten := written_array compactSlot (fun _ _ => rfl) (fun _ _ => rfl) hlast
      (fun y rest => by rw [compactItems]; rfl) fun _ => h
    rw [compactChars]
    exact hwritten

theorem written_compactObject {members : List (String × Json)}
    (h : ∀ m ∈ members, Written m.2 (compactChars m.2)) :
    Written (.object members) (compactChars (.object members)) := by
  cases members with
  | nil =>
    rw [compactChars]
    exact .emptyObject .empty
  | cons first more =>
    have hlast : compactMembers [] = Blanks.empty.val ++ ['\x7d'] := by
      rw [compactMembers]
      rfl
    have hwritten := written_object compactMember (fun _ _ => rfl) text_compactMember hlast
      (fun y rest => by rw [compactMembers]; simp) (fun _ _ => rfl) fun _ => h
    rw [compactChars]
    simpa using hwritten

theorem written_compactChars {j : Json} (h : Plain j) : Written j (compactChars j) := by
  induction h with
  | null =>
    simp only [compactChars]
    exact .null
  | bool value =>
    simp only [compactChars]
    exact written_bool value
  | integer value =>
    simp only [compactChars]
    exact written_toString value
  | string value =>
    simp only [compactChars]
    exact .string (quoted_printString value)
  | array h ih => exact written_compactArray ih
  | object h ih => exact written_compactObject ih

/-- The form without white space is JSON too, and stands for the same value. -/
theorem isText_compact {j : Json} (h : Plain j) : IsText j.compact.toList j :=
  ⟨⟨j, .empty, compactChars j, .empty⟩, rfl, by simp [Slot.text, compact, Blanks.empty],
    written_compactChars h⟩

end Compact

end Printing

end BoolExpr.Json
