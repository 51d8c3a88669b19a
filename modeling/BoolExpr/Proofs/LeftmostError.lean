import BoolExpr.Proofs.Concatenation
import BoolExpr.Proofs.Lexeme

/-!
Where lexing fails. A place of a text is defective if its character is neither white space nor in a
lexeme, or if a word of two or more capitals begins there that is no operator. Lexing goes over the
text in whole words and looks at most places not at all; still it fails exactly if some place is
defective, and reports the first one, whatever stands behind it. The reason is that a text can be
cut in front of a defective place: no word runs on into it.
-/
namespace BoolExpr

open Text (quote)
open Token (isLetter isCapital Separate lexFrom)

/-- A character that is neither white space nor in a lexeme. -/
def IsForeign (c : Char) : Prop := c ∉ blanks ∧ c ∉ ['0', '1', '(', ')'] ∧ ¬isLetter c = true

structure IsMisspelt (word : List Char) : Prop where
  long : 2 ≤ word.length
  capital : ∀ c ∈ word, isCapital c = true
  no_operator : ∀ op : Op, word ≠ op.word.toList

/-- The letters from index `p` of a text on, none of which stands before that index and as many as
there are. -/
structure IsRun (cs : List Char) (p : Nat) (word : List Char) : Prop where
  ne_nil : word ≠ []
  letter : ∀ c ∈ word, isLetter c = true
  maximal : ∃ before after, cs = before ++ (word ++ after) ∧ before.length = p ∧
    (∀ c ∈ before.getLast?, ¬isLetter c = true) ∧ ∀ c ∈ after.head?, ¬isLetter c = true

inductive Defect (cs : List Char) (p : Nat) : LexError.Reason → Prop
  | foreign {c : Char} (hplace : cs[p]? = some c) (hc : IsForeign c) :
      Defect cs p .unexpectedCharacter
  | misspelt {word : List Char} (hrun : IsRun cs p word) (hword : IsMisspelt word) :
      Defect cs p (.unknownWord (String.ofList word))

namespace Token

variable {p : Nat} {c : Char} {cs word rest : List Char} {e : LexError}

theorem isLetter_of_isCapital (h : isCapital c = true) : isLetter c = true := by
  rw [isCapital_iff] at h
  rw [isLetter_iff]
  omega

theorem markKind?_eq_none_iff : markKind? c = none ↔ c ∉ ['0', '1', '(', ')'] := by
  unfold markKind?
  split <;> simp_all

theorem isForeign_iff :
    IsForeign c ↔ ¬isSpace c = true ∧ ¬isLetter c = true ∧ markKind? c = none := by
  rw [IsForeign, isSpace_iff_mem_blanks, markKind?_eq_none_iff, and_comm (a := ¬isLetter c = true)]

def misspeltError (p : Nat) (word : List Char) : LexError :=
  ⟨p, String.ofList (word.take 1), .unknownWord (String.ofList word)⟩

theorem ofWord_of_isMisspelt (h : IsMisspelt word) :
    ofWord p word = .error (misspeltError p word) := by
  have hand : word ≠ ['A', 'N', 'D'] := h.no_operator .and
  have hor : word ≠ ['O', 'R'] := h.no_operator .or
  have hcapitals : word.all isCapital = true ∧ 1 < word.length :=
    ⟨List.all_eq_true.mpr h.capital, h.long⟩
  rw [ofWord, if_neg hand, if_neg hor, if_pos hcapitals]
  rfl

theorem isMisspelt_of_ofWord (h : ofWord p word = .error e) :
    IsMisspelt word ∧ e = misspeltError p word := by
  unfold ofWord at h
  split at h
  · cases h
  · rename_i hand
    split at h
    · cases h
    · rename_i hor
      split at h
      · rename_i hcapitals
        refine ⟨⟨hcapitals.2, List.all_eq_true.mp hcapitals.1, fun op => ?_⟩, ?_⟩
        · cases op with
          | and => exact hand
          | or => exact hor
        · exact (Except.error.inj h).symm
      · cases h

theorem lexFrom_of_isForeign (hc : IsForeign c) :
    lexFrom p (c :: rest) = .error ⟨p, String.singleton c, .unexpectedCharacter⟩ := by
  obtain ⟨hspace, hletter, hnone⟩ := isForeign_iff.mp hc
  exact lexFrom_foreign hspace hletter hnone

theorem lexFrom_of_isMisspelt (hword : IsMisspelt word)
    (hrest : ∀ d ∈ rest.head?, ¬isLetter d = true) :
    lexFrom p (word ++ rest) = .error (misspeltError p word) := by
  have hne : word ≠ [] := List.length_pos_iff.mp (by have := hword.long; omega)
  have hletter : ∀ d ∈ word, isLetter d = true := fun d hd =>
    isLetter_of_isCapital (hword.capital d hd)
  rw [lexFrom_word hne hletter hrest, ofWord_of_isMisspelt hword]
  rfl

end Token

open Token

variable {p q : Nat} {c : Char} {cs xs front back : List Char} {e : LexError}
  {reason : LexError.Reason}

theorem exists_split_of_getElem? (h : cs[p]? = some c) :
    ∃ front back, cs = front ++ c :: back ∧ front.length = p := by
  obtain ⟨hlt, hget⟩ := List.getElem?_eq_some_iff.mp h
  refine ⟨cs.take p, cs.drop (p + 1), ?_, ?_⟩
  · rw [← hget, ← List.drop_eq_getElem_cons hlt, List.take_append_drop]
  · rw [List.length_take]
    omega

/-- A text can be cut in front of a defective place, and what begins there fails at once. -/
theorem Defect.exists_split (h : Defect cs p reason) :
    ∃ front back, cs = front ++ back ∧ front.length = p ∧ Separate front back ∧
      ∀ q : Nat, ∃ e : LexError, e.position = q ∧ lexFrom q back = .error e := by
  cases h with
  | @foreign c hplace hc =>
    obtain ⟨front, back, hcs, hlength⟩ := exists_split_of_getElem? hplace
    exact ⟨front, c :: back, hcs, hlength, separate_cons _ hc.2.2 _,
      fun q => ⟨_, rfl, lexFrom_of_isForeign hc⟩⟩
  | @misspelt word hrun hword =>
    obtain ⟨before, after, hcs, hlength, hbefore, hafter⟩ := hrun.maximal
    refine ⟨before, word ++ after, hcs, hlength, ?_,
      fun q => ⟨_, rfl, lexFrom_of_isMisspelt hword hafter⟩⟩
    intro d hd hletter
    exact absurd hletter (hbefore d hd)

/-- A word at the front of a text begins a run of letters in a longer text too, unless the longer
text puts a letter in front of it. -/
theorem not_isLetter_before {before rest : List Char} (hcut : Separate xs (before ++ rest))
    (hbefore : ∀ d ∈ before.getLast?, ¬isLetter d = true)
    (hrest : ∃ d ∈ rest.head?, isLetter d = true) :
    ∀ d ∈ (xs ++ before).getLast?, ¬isLetter d = true := by
  intro d hd
  rw [List.getLast?_append] at hd
  cases hlast : before.getLast? with
  | none =>
    obtain ⟨first, hfirst, hletter⟩ := hrest
    obtain rfl : before = [] := List.getLast?_eq_none_iff.mp hlast
    intro hd'
    exact hcut d hd hd' first hfirst hletter
  | some last =>
    rw [hlast, Option.some_or] at hd
    obtain rfl : last = d := Option.some.inj hd
    exact hbefore last hlast

/-- A defect of a text is one of a longer text, unless the first word runs on in front of it. -/
theorem Defect.append (hcut : Separate xs cs) (h : Defect cs p reason) :
    Defect (xs ++ cs) (xs.length + p) reason := by
  cases h with
  | foreign hplace hc =>
    refine .foreign ?_ hc
    rwa [List.getElem?_append_right (Nat.le_add_right _ _), Nat.add_sub_cancel_left]
  | @misspelt word hrun hword =>
    obtain ⟨before, after, rfl, rfl, hbefore, hafter⟩ := hrun.maximal
    have hfirst : ∃ d ∈ (word ++ after).head?, isLetter d = true := by
      obtain ⟨d, more, rfl⟩ := List.exists_cons_of_ne_nil hrun.ne_nil
      exact ⟨d, rfl, hrun.letter d List.mem_cons_self⟩
    refine .misspelt ⟨hrun.ne_nil, hrun.letter, xs ++ before, after, ?_, ?_, ?_, hafter⟩ hword
    · rw [List.append_assoc]
    · rw [List.length_append]
    · exact not_isLetter_before hcut hbefore hfirst

theorem isRun_front {word rest : List Char} (hne : word ≠ [])
    (hword : ∀ d ∈ word, isLetter d = true) (hrest : ∀ d ∈ rest.head?, ¬isLetter d = true) :
    IsRun (word ++ rest) 0 word :=
  ⟨hne, hword, [], rest, rfl, rfl, by simp, hrest⟩

/-- The error is about a defect of a text that begins at position `p`. -/
def LexError.Reports (e : LexError) (p : Nat) (cs : List Char) : Prop :=
  ∃ front c back, cs = front ++ c :: back ∧ e.position = (p + front.length : Nat) ∧
    e.character = String.singleton c ∧ Defect cs front.length e.reason

theorem LexError.Reports.append (hcut : Separate xs cs) (h : e.Reports (p + xs.length) cs) :
    e.Reports p (xs ++ cs) := by
  obtain ⟨front, c, back, rfl, hposition, hcharacter, hdefect⟩ := h
  refine ⟨xs ++ front, c, back, ?_, ?_, hcharacter, ?_⟩
  · rw [List.append_assoc]
  · rw [hposition, List.length_append, Nat.add_assoc]
  · rw [List.length_append]
    exact hdefect.append hcut

theorem reports_of_lexFrom (h : lexFrom p cs = .error e) : e.Reports p cs := by
  induction p, cs using lexFrom.induct with
  | case1 p =>
    rw [lexFrom] at h
    cases h
  | case2 p c rest hc ih =>
    rw [lexFrom_space hc] at h
    have hletter : ¬isLetter c = true := fun hletter => not_isSpace_of_isLetter hletter hc
    exact (ih h).append (separate_singleton hletter rest)
  | case3 p c rest hspace hc _ =>
    rename_i ih
    obtain ⟨hword, hrest, hsplit⟩ := cons_takeWhile hc rest
    rw [hsplit] at h ⊢
    rw [lexFrom_word (List.cons_ne_nil _ _) hword hrest, Outcome.bind_eq_error] at h
    rcases h with hfails | ⟨token, -, h⟩
    · obtain ⟨hmisspelt, rfl⟩ := isMisspelt_of_ofWord hfails
      have hrun := isRun_front (List.cons_ne_nil _ _) hword hrest
      exact ⟨[], c, _, rfl, rfl, rfl, .misspelt hrun hmisspelt⟩
    · rcases Outcome.bind_eq_error.mp h with hbehind | ⟨tokens, -, hok⟩
      · exact (ih hbehind).append fun d _ _ => hrest
      · cases hok
  | case4 p c rest hspace hletter kind hkind ih =>
    rw [lexFrom_mark hkind, Outcome.bind_eq_error] at h
    rcases h with hbehind | ⟨tokens, -, hok⟩
    · exact (ih hbehind).append (separate_singleton hletter rest)
    · cases hok
  | case5 p c rest hspace hletter hnone =>
    rw [lexFrom_foreign hspace hletter hnone] at h
    cases h
    exact ⟨[], c, rest, rfl, rfl, rfl, .foreign rfl (isForeign_iff.mpr ⟨hspace, hletter, hnone⟩)⟩

/-- Whatever lexing reports stands within the text. -/
theorem LexError.Reports.position_lt (h : e.Reports p cs) : e.position < (p + cs.length : Nat) := by
  obtain ⟨front, c, back, rfl, hposition, -, -⟩ := h
  rw [hposition, List.length_append, List.length_cons]
  omega

/-- A text with a defect fails, no further on than there. -/
theorem exists_error_of_defect (p : Nat) (h : Defect cs q reason) :
    ∃ e, lexFrom p cs = .error e ∧ e.position ≤ (p + q : Nat) := by
  obtain ⟨front, back, rfl, rfl, hcut, hfails⟩ := h.exists_split
  obtain ⟨e, hposition, herror⟩ := hfails (p + front.length)
  rw [lexFrom_append hcut]
  cases hfront : lexFrom p front with
  | error e' =>
    have hlt := (reports_of_lexFrom hfront).position_lt
    exact ⟨e', rfl, by omega⟩
  | ok ts =>
    rw [herror]
    exact ⟨e, rfl, by omega⟩

/-- Behind a cut, texts that have the same outcome may take each other's place. -/
theorem lexFrom_congr_behind {back' : List Char} (hcut : Separate front back)
    (hcut' : Separate front back')
    (h : lexFrom (p + front.length) back = lexFrom (p + front.length) back') :
    lexFrom p (front ++ back) = lexFrom p (front ++ back') := by
  rw [lexFrom_append hcut, lexFrom_append hcut', h]

theorem lexFrom_behind_foreign (hc : IsForeign c) (rest : List Char) :
    lexFrom p (front ++ c :: rest) = lexFrom p (front ++ c :: back) := by
  apply lexFrom_congr_behind (separate_cons _ hc.2.2 _) (separate_cons _ hc.2.2 _)
  rw [lexFrom_of_isForeign hc, lexFrom_of_isForeign hc]

theorem lexFrom_behind_misspelt {word rest : List Char} (hword : IsMisspelt word)
    (hfront : ∀ d ∈ front.getLast?, ¬isLetter d = true)
    (hback : ∀ d ∈ back.head?, ¬isLetter d = true) (hrest : ∀ d ∈ rest.head?, ¬isLetter d = true) :
    lexFrom p (front ++ (word ++ rest)) = lexFrom p (front ++ (word ++ back)) := by
  have hcut : ∀ ys, Separate front ys := fun ys d hd hletter => absurd hletter (hfront d hd)
  apply lexFrom_congr_behind (hcut _) (hcut _)
  rw [lexFrom_of_isMisspelt hword hrest, lexFrom_of_isMisspelt hword hback]

namespace Token

/-- Nothing behind a foreign character matters. -/
theorem lex_take_foreign {source : String} (hplace : source.toList[p]? = some c) (hc : IsForeign c)
    (rest : List Char) : lex (String.ofList (source.toList.take (p + 1) ++ rest)) = lex source := by
  obtain ⟨front, back, hcs, rfl⟩ := exists_split_of_getElem? hplace
  have htake : source.toList.take (front.length + 1) ++ rest = front ++ c :: rest := by
    rw [hcs, List.take_append, List.take_of_length_le (Nat.le_succ _)]
    simp
  rw [lex, lex, String.toList_ofList, htake, hcs]
  exact lexFrom_behind_foreign hc rest

/-- Nothing behind the end of a misspelt word matters. -/
theorem lex_take_misspelt {source : String} {word rest : List Char}
    (hrun : IsRun source.toList p word) (hword : IsMisspelt word)
    (hrest : ∀ d ∈ rest.head?, ¬isLetter d = true) :
    lex (String.ofList (source.toList.take (p + word.length) ++ rest)) = lex source := by
  obtain ⟨front, back, hsplit, rfl, hfront, hback⟩ := hrun.maximal
  have htake : source.toList.take (front.length + word.length) ++ rest =
      front ++ (word ++ rest) := by
    rw [hsplit, ← List.append_assoc, ← List.length_append, List.take_left, List.append_assoc]
  rw [lex, lex, String.toList_ofList, htake, hsplit]
  exact lexFrom_behind_misspelt hword hfront hback hrest

/-- Lexing fails exactly if some index of the text has a defect. It then reports the least one, with
the character there; and either this character belongs to no lexeme, and nothing behind it matters,
or a word begins there that is no operator, and nothing matters behind the end of that word. -/
theorem lex_error_leftmost (source : String) :
    ((∃ e, lex source = .error e) ↔ ∃ p reason, Defect source.toList p reason) ∧
    ∀ e, lex source = .error e → ∃ (p : Nat) (c : Char),
      e.position = p ∧ e.character = String.singleton c ∧ source.toList[p]? = some c ∧
      (∀ q reason, Defect source.toList q reason → p ≤ q) ∧
      ((IsForeign c ∧
          e.message = s!"unexpected character {quote (String.singleton c)} at position {p}" ∧
          ∀ rest, lex (String.ofList (source.toList.take (p + 1) ++ rest)) = .error e) ∨
        ∃ word, IsRun source.toList p word ∧ IsMisspelt word ∧
          e.message = s!"unknown operator word {quote (String.ofList word)} at position {p}" ∧
          ∀ rest, (∀ d ∈ rest.head?, ¬isLetter d = true) →
            lex (String.ofList (source.toList.take (p + word.length) ++ rest)) = .error e) := by
  constructor
  · constructor
    · rintro ⟨e, h⟩
      obtain ⟨front, c, back, -, -, -, hdefect⟩ := reports_of_lexFrom h
      exact ⟨_, _, hdefect⟩
    · rintro ⟨p, reason, hdefect⟩
      obtain ⟨e, h, -⟩ := exists_error_of_defect 0 hdefect
      exact ⟨e, h⟩
  · intro e h
    obtain ⟨front, c, back, hcs, hposition, hcharacter, hdefect⟩ := reports_of_lexFrom h
    rw [Nat.zero_add] at hposition
    have hplace : source.toList[front.length]? = some c := by
      rw [hcs, List.getElem?_append_right (Nat.le_refl _), Nat.sub_self]
      rfl
    refine ⟨front.length, c, hposition, hcharacter, hplace, ?_, ?_⟩
    · intro q reason hq
      obtain ⟨e', h', hle⟩ := exists_error_of_defect 0 hq
      obtain rfl : e' = e := Except.error.inj (h'.symm.trans h)
      omega
    · obtain ⟨position, character, reason⟩ := e
      obtain rfl : position = front.length := hposition
      cases hdefect with
      | @foreign c' hplace' hc =>
        obtain rfl : c = c' := Option.some.inj (hplace.symm.trans hplace')
        obtain rfl : character = String.singleton c := hcharacter
        exact Or.inl ⟨hc, rfl, fun rest => (lex_take_foreign hplace hc rest).trans h⟩
      | @misspelt word hrun hword =>
        refine Or.inr ⟨word, hrun, hword, rfl, fun rest hrest => ?_⟩
        exact (lex_take_misspelt hrun hword hrest).trans h

end Token

end BoolExpr
