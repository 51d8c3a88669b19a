import Mathlib.Data.List.Forall2
import Mathlib.Data.List.TakeWhile
import BoolExpr.Service.Query

/-!
The written forms of query strings. A character of a name or of a value may stand for itself, unless
it is a sign of the query, and the bytes of its UTF-8 may be written in hexadecimal; a plus sign is
a space. The main statement is that pairs are read from each of their written forms, and that all
pairs have one, whatever characters they hold.
-/
namespace BoolExpr

namespace Text

variable {b bits low high due : Nat} {bytes : List Nat}

theorem utf8From_begun {p : Utf8Pending} (h : utf8Start b = ([], some p)) :
    utf8From none (b :: bytes) = utf8From (some p) bytes := by
  rw [utf8From, utf8Step, h]
  rfl

theorem utf8From_last (hlow : low ≤ b) (hhigh : b ≤ high) :
    utf8From (some ⟨0, bits, low, high⟩) (b :: bytes) =
      Char.ofNat (64 * bits + (b - 0x80)) :: utf8From none bytes := by
  rw [utf8From, utf8Step, if_pos ⟨hlow, hhigh⟩]
  rfl

theorem utf8From_next (hlow : low ≤ b) (hhigh : b ≤ high) :
    utf8From (some ⟨due + 1, bits, low, high⟩) (b :: bytes) =
      utf8From (some ⟨due, 64 * bits + (b - 0x80), 0x80, 0xBF⟩) bytes := by
  rw [utf8From, utf8Step, if_pos ⟨hlow, hhigh⟩]
  rfl

theorem utf8Start_two (hlow : 0xC2 ≤ b) (hhigh : b < 0xE0) :
    utf8Start b = ([], some ⟨0, b - 0xC0, 0x80, 0xBF⟩) := by
  rw [utf8Start, if_neg (by omega), if_neg (by omega), if_pos hhigh]

/-- After the first byte of three, the bounds of the second one exclude overlong forms and
surrogates only. -/
theorem utf8Start_three (hlow : 0xE0 ≤ b) (hhigh : b < 0xF0) :
    ∃ least most, utf8Start b = ([], some ⟨1, b - 0xE0, least, most⟩) ∧
      ∀ n, 0x80 ≤ n → n ≤ 0xBF → (b = 0xE0 → 0xA0 ≤ n) → (b = 0xED → n ≤ 0x9F) →
        least ≤ n ∧ n ≤ most := by
  by_cases hfirst : b = 0xE0
  · subst hfirst
    exact ⟨0xA0, 0xBF, rfl, fun n _ hn hoverlong _ => ⟨hoverlong rfl, hn⟩⟩
  · by_cases hsurrogate : b = 0xED
    · subst hsurrogate
      exact ⟨0x80, 0x9F, rfl, fun n hn _ _ hhalf => ⟨hn, hhalf rfl⟩⟩
    · refine ⟨0x80, 0xBF, ?_, fun n hn hn' _ _ => ⟨hn, hn'⟩⟩
      rw [utf8Start, if_neg (by omega), if_neg (by omega), if_neg (by omega), if_neg hfirst,
        if_neg hsurrogate, if_pos hhigh]

/-- After the first byte of four, the bounds of the second one exclude overlong forms and numbers
that are too large. -/
theorem utf8Start_four (hlow : 0xF0 ≤ b) (hhigh : b ≤ 0xF4) :
    ∃ least most, utf8Start b = ([], some ⟨2, b - 0xF0, least, most⟩) ∧
      ∀ n, 0x80 ≤ n → n ≤ 0xBF → (b = 0xF0 → 0x90 ≤ n) → (b = 0xF4 → n ≤ 0x8F) →
        least ≤ n ∧ n ≤ most := by
  by_cases hfirst : b = 0xF0
  · subst hfirst
    exact ⟨0x90, 0xBF, rfl, fun n _ hn hoverlong _ => ⟨hoverlong rfl, hn⟩⟩
  · by_cases hlarge : b = 0xF4
    · subst hlarge
      exact ⟨0x80, 0x8F, rfl, fun n hn _ _ hsmall => ⟨hn, hsmall rfl⟩⟩
    · refine ⟨0x80, 0xBF, ?_, fun n hn hn' _ _ => ⟨hn, hn'⟩⟩
      rw [utf8Start, if_neg (by omega), if_neg (by omega), if_neg (by omega), if_neg (by omega),
        if_neg (by omega), if_neg (by omega), if_neg hfirst, if_pos (by omega)]

end Text

namespace Query

open Text

theorem ownBytes_eq (c : Char) :
    ownBytes c =
      if c.toNat ≤ 0x7F then [c.toNat]
      else if c.toNat ≤ 0x7FF then [c.toNat / 64 + 0xC0, c.toNat % 64 + 0x80]
      else if c.toNat ≤ 0xFFFF then
        [c.toNat / 4096 + 0xE0, c.toNat / 64 % 64 + 0x80, c.toNat % 64 + 0x80]
      else [c.toNat / 262144 + 0xF0, c.toNat / 4096 % 64 + 0x80, c.toNat / 64 % 64 + 0x80,
        c.toNat % 64 + 0x80] := by
  have hvalid : c.toNat < 0xD800 ∨ 0xDFFF < c.toNat ∧ c.toNat < 0x110000 := c.valid
  have hval : c.val.toNat = c.toNat := rfl
  have hbyte : ∀ n, n < 256 → (UInt8.ofNat n).toNat = n := fun n hn => Nat.mod_eq_of_lt hn
  unfold ownBytes String.utf8EncodeChar
  simp only [hval]
  split
  · rw [List.map_singleton, hbyte _ (by omega)]
  split
  · simp only [List.map_cons, List.map_nil]
    rw [hbyte _ (by omega), hbyte _ (by omega), Nat.mod_eq_of_lt (by omega)]
  split
  · simp only [List.map_cons, List.map_nil]
    rw [hbyte _ (by omega), hbyte _ (by omega), hbyte _ (by omega), Nat.mod_eq_of_lt (by omega)]
  · simp only [List.map_cons, List.map_nil]
    rw [hbyte _ (by omega), hbyte _ (by omega), hbyte _ (by omega), hbyte _ (by omega),
      Nat.mod_eq_of_lt (by omega)]

/-- The bytes of a character are decoded to it, whatever follows. -/
theorem utf8From_ownBytes (c : Char) (bytes : List Nat) :
    utf8From none (ownBytes c ++ bytes) = c :: utf8From none bytes := by
  have hvalid : c.toNat < 0xD800 ∨ 0xDFFF < c.toNat ∧ c.toNat < 0x110000 := c.valid
  have hchar : Char.ofNat c.toNat = c := Char.ofNat_toNat c
  rw [ownBytes_eq]
  split
  · rename_i hone
    rw [List.singleton_append, utf8From, utf8Step, utf8Start, if_pos (by omega), hchar]
    rfl
  split
  · have hbits : 64 * (c.toNat / 64 + 0xC0 - 0xC0) + (c.toNat % 64 + 0x80 - 0x80) = c.toNat := by
      omega
    simp only [List.cons_append, List.nil_append]
    rw [utf8From_begun (utf8Start_two (by omega) (by omega)), utf8From_last (by omega) (by omega),
      hbits, hchar]
  split
  · obtain ⟨least, most, hstart, hbounds⟩ :=
      utf8Start_three (b := c.toNat / 4096 + 0xE0) (by omega) (by omega)
    obtain ⟨hlow, hhigh⟩ := hbounds (c.toNat / 64 % 64 + 0x80) (by omega) (by omega) (by omega)
      (by omega)
    simp only [List.cons_append, List.nil_append]
    have hbits : 64 * (64 * (c.toNat / 4096 + 0xE0 - 0xE0) + (c.toNat / 64 % 64 + 0x80 - 0x80)) +
        (c.toNat % 64 + 0x80 - 0x80) = c.toNat := by
      omega
    rw [utf8From_begun hstart, utf8From_next hlow hhigh, utf8From_last (by omega) (by omega),
      hbits, hchar]
  · obtain ⟨least, most, hstart, hbounds⟩ :=
      utf8Start_four (b := c.toNat / 262144 + 0xF0) (by omega) (by omega)
    obtain ⟨hlow, hhigh⟩ := hbounds (c.toNat / 4096 % 64 + 0x80) (by omega) (by omega) (by omega)
      (by omega)
    simp only [List.cons_append, List.nil_append]
    have hbits : 64 * (64 * (64 * (c.toNat / 262144 + 0xF0 - 0xF0) +
        (c.toNat / 4096 % 64 + 0x80 - 0x80)) + (c.toNat / 64 % 64 + 0x80 - 0x80)) +
          (c.toNat % 64 + 0x80 - 0x80) = c.toNat := by
      omega
    rw [utf8From_begun hstart, utf8From_next hlow hhigh, utf8From_next (by omega) (by omega),
      utf8From_last (by omega) (by omega), hbits, hchar]

/-- The signs of a query, each of which is meant by its code only. -/
def signs : List Char := ['%', '+', '&', '=']

/-- A way to write bytes in a name or in a value. -/
inductive Writes : List Nat → List Char → Prop
  | nil : Writes [] []
  | plain {c : Char} {bytes : List Nat} {cs : List Char} (hsign : c ∉ signs)
      (h : Writes bytes cs) : Writes (ownBytes c ++ bytes) (c :: cs)
  | space {bytes : List Nat} {cs : List Char} (h : Writes bytes cs) :
      Writes (ownBytes ' ' ++ bytes) ('+' :: cs)
  | coded {x₁ x₀ : Char} {n₁ n₀ : Nat} {bytes : List Nat} {cs : List Char}
      (h₁ : hexValue? x₁ = some n₁) (h₀ : hexValue? x₀ = some n₀) (h : Writes bytes cs) :
      Writes ((16 * n₁ + n₀) :: bytes) ('%' :: x₁ :: x₀ :: cs)

def WritesText (s : String) (cs : List Char) : Prop := Writes (s.toList.flatMap ownBytes) cs

inductive WritesPair : String × String → List Char → Prop
  | both {name value : String} {cs cs' : List Char} (hname : WritesText name cs)
      (hvalue : WritesText value cs') : WritesPair (name, value) (cs ++ '=' :: cs')
  | bare {name : String} {cs : List Char} (hne : cs ≠ []) (hname : WritesText name cs) :
      WritesPair (name, "") cs

/-- The query holds the pairs, in some written form. -/
def Holds (query : String) (ps : List (String × String)) : Prop :=
  ∃ pieces, List.Forall₂ WritesPair ps pieces ∧ query.toList = List.intercalate ['&'] pieces

variable {bytes : List Nat} {cs cs' : List Char} {s : String} {ps : List (String × String)}

theorem hexValue?_of_mem_signs {c : Char} (h : c ∈ signs) : hexValue? c = none := by
  simp only [signs, List.mem_cons, List.not_mem_nil, or_false] at h
  rcases h with rfl | rfl | rfl | rfl <;> rfl

theorem Writes.notMem {c : Char} (hc : c = '&' ∨ c = '=') (h : Writes bytes cs) : c ∉ cs := by
  have hsigns : c ∈ signs := by rcases hc with rfl | rfl <;> simp [signs]
  have hdigit : ∀ {x n}, hexValue? x = some n → c ≠ x := by
    rintro x n hx rfl
    rw [hexValue?_of_mem_signs hsigns] at hx
    cases hx
  induction h with
  | nil => exact List.not_mem_nil
  | plain hsign h ih =>
    refine List.not_mem_cons_of_ne_of_not_mem ?_ ih
    rintro rfl
    exact hsign hsigns
  | space h ih =>
    refine List.not_mem_cons_of_ne_of_not_mem ?_ ih
    rcases hc with rfl | rfl <;> decide
  | coded h₁ h₀ h ih =>
    simp only [List.mem_cons, not_or]
    refine ⟨?_, hdigit h₁, hdigit h₀, ih⟩
    rcases hc with rfl | rfl <;> decide

theorem componentBytes_cons {c : Char} (hc : c ≠ '%') (cs : List Char) :
    componentBytes (c :: cs) = ownBytes (if c = '+' then ' ' else c) ++ componentBytes cs := by
  rw [componentBytes]
  intro a b rest hcs
  exact absurd hcs hc

theorem Writes.componentBytes_eq (h : Writes bytes cs) : componentBytes cs = bytes := by
  induction h with
  | nil => rfl
  | @plain c bytes cs hsign h ih =>
    have hpercent : c ≠ '%' := by
      rintro rfl
      exact hsign (by simp [signs])
    have hplus : c ≠ '+' := by
      rintro rfl
      exact hsign (by simp [signs])
    rw [componentBytes_cons hpercent, if_neg hplus, ih]
  | space h ih => rw [componentBytes_cons (by decide), if_pos rfl, ih]
  | coded h₁ h₀ h ih => simp only [componentBytes, h₁, h₀, ih]

theorem utf8From_flatMap_ownBytes (cs : List Char) : utf8From none (cs.flatMap ownBytes) = cs := by
  induction cs with
  | nil => rfl
  | cons c rest ih => rw [List.flatMap_cons, utf8From_ownBytes, ih]

theorem WritesText.decodeComponent_eq (h : WritesText s cs) : decodeComponent cs = s := by
  rw [decodeComponent, Writes.componentBytes_eq h, decodeUtf8, utf8From_flatMap_ownBytes,
    String.ofList_toList]

theorem WritesText.bne_equals (h : WritesText s cs) : ∀ c ∈ cs, (c != '=') = true := by
  intro c hc
  have hne : c ≠ '=' := fun heq => Writes.notMem (.inr rfl) h (heq ▸ hc)
  simpa using hne

theorem WritesPair.decodePair_eq {pair : String × String} (h : WritesPair pair cs) :
    decodePair cs = pair := by
  cases h with
  | both hname hvalue =>
    rw [decodePair, List.takeWhile_append_of_pos hname.bne_equals,
      List.dropWhile_append_of_pos hname.bne_equals]
    simp [hname.decodeComponent_eq, hvalue.decodeComponent_eq]
  | bare hne hname =>
    rw [decodePair, List.takeWhile_eq_self_iff.mpr hname.bne_equals,
      List.dropWhile_eq_nil_iff.mpr hname.bne_equals, hname.decodeComponent_eq]
    rfl

theorem WritesPair.ne_nil {pair : String × String} (h : WritesPair pair cs) : cs ≠ [] := by
  cases h with
  | both hname hvalue => simp
  | bare hne hname => exact hne

theorem WritesPair.notMem {pair : String × String} (h : WritesPair pair cs) : '&' ∉ cs := by
  cases h with
  | both hname hvalue =>
    simp only [List.mem_append, List.mem_cons, not_or]
    exact ⟨Writes.notMem (.inl rfl) hname, by decide, Writes.notMem (.inl rfl) hvalue⟩
  | bare hne hname => exact Writes.notMem (.inl rfl) hname

theorem splitPairs_of_notMem (h : '&' ∉ cs) : splitPairs cs = [cs] := by
  induction cs with
  | nil => rfl
  | cons c rest ih =>
    obtain ⟨hc, hrest⟩ := List.ne_and_not_mem_of_not_mem_cons h
    rw [splitPairs, ih hrest]
    exact if_neg (Ne.symm hc)

theorem splitPairs_ne_nil (cs : List Char) : splitPairs cs ≠ [] := by
  cases cs with
  | nil => exact List.cons_ne_nil _ _
  | cons c rest =>
    rw [splitPairs]
    split
    · exact List.cons_ne_nil _ _
    · split <;> exact List.cons_ne_nil _ _

theorem splitPairs_append (h : '&' ∉ cs) (rest : List Char) :
    splitPairs (cs ++ '&' :: rest) = cs :: splitPairs rest := by
  induction cs with
  | nil =>
    obtain ⟨first, more, hrest⟩ := List.exists_cons_of_ne_nil (splitPairs_ne_nil rest)
    rw [List.nil_append, splitPairs, hrest]
    exact if_pos rfl
  | cons c more ih =>
    obtain ⟨hc, hmore⟩ := List.ne_and_not_mem_of_not_mem_cons h
    rw [List.cons_append, splitPairs, ih hmore]
    exact if_neg (Ne.symm hc)

theorem splitPairs_intercalate {pieces : List (List Char)} (hne : pieces ≠ [])
    (h : ∀ piece ∈ pieces, '&' ∉ piece) :
    splitPairs (List.intercalate ['&'] pieces) = pieces := by
  induction pieces with
  | nil => exact absurd rfl hne
  | cons piece rest ih =>
    have hpiece : '&' ∉ piece := h piece (by simp)
    cases rest with
    | nil => rw [List.intercalate_singleton, splitPairs_of_notMem hpiece]
    | cons next rest =>
      have hrest := ih (List.cons_ne_nil _ _) fun other hother => h other (by simp [hother])
      rw [List.intercalate_cons_of_ne_nil (List.cons_ne_nil _ _), List.append_assoc,
        List.singleton_append, splitPairs_append hpiece, hrest]

theorem decodePair_pieces {pieces : List (List Char)} (h : List.Forall₂ WritesPair ps pieces) :
    pieces.map decodePair = ps ∧ ∀ piece ∈ pieces, piece ≠ [] ∧ '&' ∉ piece := by
  induction h with
  | nil => exact ⟨rfl, fun piece hpiece => absurd hpiece List.not_mem_nil⟩
  | cons hpair hrest ih =>
    obtain ⟨hdecode, hshape⟩ := ih
    refine ⟨by rw [List.map_cons, hpair.decodePair_eq, hdecode], fun piece hpiece => ?_⟩
    rcases List.mem_cons.mp hpiece with rfl | hpiece
    · exact ⟨hpair.ne_nil, hpair.notMem⟩
    · exact hshape piece hpiece

/-- Pairs are read from each of their written forms. -/
theorem pairs_of_holds {query : String} (h : Holds query ps) : pairs query = ps := by
  obtain ⟨pieces, hpieces, hquery⟩ := h
  obtain ⟨hdecode, hshape⟩ := decodePair_pieces hpieces
  by_cases hnil : pieces = []
  · subst hnil
    rw [pairs, hquery, ← hdecode]
    rfl
  · rw [pairs, hquery, splitPairs_intercalate hnil fun piece hpiece => (hshape piece hpiece).2,
      List.filter_eq_self.mpr fun piece hpiece => by simp [(hshape piece hpiece).1], hdecode]

theorem writes_codes (h : ∀ b ∈ bytes, b < 256) :
    Writes bytes (bytes.flatMap fun b => '%' :: hexDigits 2 b) := by
  induction bytes with
  | nil => exact .nil
  | cons b bytes ih =>
    have hb : 16 * (b / 16 % 16) + b % 16 = b := by
      have hlt := h b (by simp)
      omega
    have hcoded := Writes.coded (hexValue?_digitChar (Nat.mod_lt (b / 16) (by decide)))
      (hexValue?_digitChar (Nat.mod_lt b (by decide)))
      (ih fun other hother => h other (by simp [hother]))
    rw [hb] at hcoded
    exact hcoded

/-- Every text can be written, by codes alone if need be. -/
theorem exists_writesText (s : String) : ∃ cs, WritesText s cs := by
  refine ⟨_, writes_codes fun b hb => ?_⟩
  obtain ⟨c, -, hb⟩ := List.mem_flatMap.mp hb
  obtain ⟨byte, -, rfl⟩ := List.mem_map.mp hb
  exact byte.toNat_lt

theorem exists_pieces (ps : List (String × String)) :
    ∃ pieces, List.Forall₂ WritesPair ps pieces := by
  induction ps with
  | nil => exact ⟨[], .nil⟩
  | cons pair rest ih =>
    obtain ⟨pieces, hpieces⟩ := ih
    obtain ⟨cs, hname⟩ := exists_writesText pair.1
    obtain ⟨cs', hvalue⟩ := exists_writesText pair.2
    exact ⟨(cs ++ '=' :: cs') :: pieces, .cons (.both hname hvalue) hpieces⟩

theorem exists_holds (ps : List (String × String)) : ∃ query, Holds query ps := by
  obtain ⟨pieces, hpieces⟩ := exists_pieces ps
  exact ⟨String.ofList (List.intercalate ['&'] pieces), pieces, hpieces, String.toList_ofList⟩

example : pairs "x=1&caf%C3%A9=0&&y+z" = [("x", "1"), ("café", "0"), ("y z", "")] := by decide

end Query

end BoolExpr
