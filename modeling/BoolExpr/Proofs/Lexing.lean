import BoolExpr.Proofs.Nesting
import BoolExpr.Proofs.Outcome

/-!
Which tokens a text has. `Lexes` states it by rules, one for each kind of piece that a text begins
with: white space, a character that is a token by itself, or a word that no letter follows. Lexing
succeeds exactly with the tokens of these rules. Texts that are put together have their tokens one
after the other, unless a word would run on; and brackets and the names of variables come from the
text.
-/
namespace BoolExpr.Token

variable {p : Nat} {c : Char} {kind : Kind} {cs rest word : List Char} {token : Token}
  {tokens : List Token}

theorem isCapital_iff : isCapital c = true ↔ 65 ≤ c.toNat ∧ c.toNat ≤ 90 := by
  simp only [isCapital, Char.le_def, UInt32.le_iff_toNat_le, Char.toNat_val, Char.reduceToNat,
    Bool.and_eq_true, decide_eq_true_eq]

theorem isLetter_iff :
    isLetter c = true ↔ (65 ≤ c.toNat ∧ c.toNat ≤ 90) ∨ (97 ≤ c.toNat ∧ c.toNat ≤ 122) := by
  simp only [isLetter, Bool.or_eq_true, isCapital_iff, Char.le_def, UInt32.le_iff_toNat_le,
    Char.toNat_val, Char.reduceToNat, Bool.and_eq_true, decide_eq_true_eq]

theorem isSpace_iff : isSpace c = true ↔ c.toNat = 32 ∨ (9 ≤ c.toNat ∧ c.toNat ≤ 13) := by
  simp only [isSpace, Bool.or_eq_true, ← Char.toNat_inj, Char.le_def, UInt32.le_iff_toNat_le,
    Char.toNat_val, Char.reduceToNat, Bool.and_eq_true, decide_eq_true_eq]

theorem not_isSpace_of_isLetter (h : isLetter c = true) : ¬isSpace c = true := by
  rw [isLetter_iff] at h
  rw [isSpace_iff]
  omega

/-- The characters that are tokens by themselves. -/
theorem mark_cases (h : markKind? c = some kind) :
    (c = '0' ∧ kind = .literal false) ∨ (c = '1' ∧ kind = .literal true) ∨
      (c = '(' ∧ kind = .opening) ∨ (c = ')' ∧ kind = .closing) := by
  unfold markKind? at h
  split at h <;> simp_all

theorem not_isSpace_of_mark (h : markKind? c = some kind) : ¬isSpace c = true := by
  rcases mark_cases h with ⟨rfl, -⟩ | ⟨rfl, -⟩ | ⟨rfl, -⟩ | ⟨rfl, -⟩ <;> decide

theorem not_isLetter_of_mark (h : markKind? c = some kind) : ¬isLetter c = true := by
  rcases mark_cases h with ⟨rfl, -⟩ | ⟨rfl, -⟩ | ⟨rfl, -⟩ | ⟨rfl, -⟩ <;> decide

inductive Lexes : Nat → List Char → List Token → Prop
  | finish (p : Nat) : Lexes p [] [⟨.finish, p, ""⟩]
  | space {p : Nat} {c : Char} {rest : List Char} {tokens : List Token} (hc : isSpace c = true)
      (h : Lexes (p + 1) rest tokens) : Lexes p (c :: rest) tokens
  | mark {p : Nat} {c : Char} {kind : Kind} {rest : List Char} {tokens : List Token}
      (hc : markKind? c = some kind) (h : Lexes (p + 1) rest tokens) :
      Lexes p (c :: rest) (⟨kind, p, String.singleton c⟩ :: tokens)
  | word {p : Nat} {word rest : List Char} {token : Token} {tokens : List Token} (hne : word ≠ [])
      (hword : ∀ c ∈ word, isLetter c = true) (hrest : ∀ c ∈ rest.head?, ¬isLetter c = true)
      (htoken : ofWord p word = .ok token) (h : Lexes (p + word.length) rest tokens) :
      Lexes p (word ++ rest) (token :: tokens)

theorem lexFrom_space (hc : isSpace c = true) : lexFrom p (c :: rest) = lexFrom (p + 1) rest := by
  rw [lexFrom, if_pos hc]

theorem lexFrom_mark (hc : markKind? c = some kind) :
    lexFrom p (c :: rest) = (do
      let tokens ← lexFrom (p + 1) rest
      return ⟨kind, p, String.singleton c⟩ :: tokens) := by
  rw [lexFrom, if_neg (not_isSpace_of_mark hc), if_neg (not_isLetter_of_mark hc)]
  simp only [hc]

theorem lexFrom_foreign (hspace : ¬isSpace c = true) (hletter : ¬isLetter c = true)
    (hnone : markKind? c = none) :
    lexFrom p (c :: rest) = .error ⟨p, String.singleton c, .unexpectedCharacter⟩ := by
  rw [lexFrom, if_neg hspace, if_neg hletter]
  simp only [hnone]

/-- A word is taken whole. -/
theorem lexFrom_word (hne : word ≠ []) (hword : ∀ c ∈ word, isLetter c = true)
    (hrest : ∀ c ∈ rest.head?, ¬isLetter c = true) :
    lexFrom p (word ++ rest) = (do
      let token ← ofWord p word
      let tokens ← lexFrom (p + word.length) rest
      return token :: tokens) := by
  have hnone : rest.takeWhile isLetter = [] ∧ rest.dropWhile isLetter = rest := by
    cases rest with
    | nil => exact ⟨rfl, rfl⟩
    | cons d more =>
      have hd : ¬isLetter d = true := hrest d rfl
      exact ⟨List.takeWhile_cons_of_neg hd, List.dropWhile_cons_of_neg hd⟩
  cases word with
  | nil => exact absurd rfl hne
  | cons c more =>
    have hc : isLetter c = true := hword c (by simp)
    have hmore : ∀ d ∈ more, isLetter d = true := fun d hd => hword d (by simp [hd])
    have htake : (more ++ rest).takeWhile isLetter = more := by
      rw [List.takeWhile_append_of_pos hmore, hnone.1, List.append_nil]
    have hdrop : (more ++ rest).dropWhile isLetter = rest := by
      rw [List.dropWhile_append_of_pos hmore, hnone.2]
    rw [List.cons_append, lexFrom, if_neg (not_isSpace_of_isLetter hc), if_pos hc]
    simp only [htake, hdrop]

theorem lexFrom_of_lexes (h : Lexes p cs tokens) : lexFrom p cs = .ok tokens := by
  induction h with
  | finish p => rw [lexFrom]
  | space hc h ih => rw [lexFrom_space hc, ih]
  | mark hc h ih =>
    rw [lexFrom_mark hc, ih]
    rfl
  | word hne hword hrest htoken h ih =>
    rw [lexFrom_word hne hword hrest, htoken, ih]
    rfl

/-- The longest front of a text, of characters with a property, when the first one has it. -/
theorem cons_takeWhile {p : Char → Bool} {c : Char} (hc : p c = true) (rest : List Char) :
    (∀ d ∈ c :: rest.takeWhile p, p d = true) ∧ (∀ d ∈ (rest.dropWhile p).head?, ¬p d = true) ∧
      c :: rest = (c :: rest.takeWhile p) ++ rest.dropWhile p := by
  refine ⟨fun d hd => ?_, fun d hd => ?_, ?_⟩
  · rcases List.mem_cons.mp hd with rfl | hd
    · exact hc
    · exact List.all_eq_true.mp List.all_takeWhile d hd
  · have hnot := List.head?_dropWhile_not p rest
    rw [Option.mem_def] at hd
    simpa [hd] using hnot
  · rw [List.cons_append, List.takeWhile_append_dropWhile]

theorem lexes_of_lexFrom (h : lexFrom p cs = .ok tokens) : Lexes p cs tokens := by
  induction p, cs using lexFrom.induct generalizing tokens with
  | case1 p =>
    rw [lexFrom, Except.ok.injEq] at h
    subst h
    exact .finish p
  | case2 p c rest hc ih =>
    rw [lexFrom_space hc] at h
    exact .space hc (ih h)
  | case3 p c rest hspace hc _ =>
    rename_i ih
    obtain ⟨hword, hrest, hsplit⟩ := cons_takeWhile hc rest
    rw [hsplit] at h ⊢
    rw [lexFrom_word (List.cons_ne_nil _ _) hword hrest, Outcome.bind_eq_ok] at h
    obtain ⟨token, htoken, h⟩ := h
    obtain ⟨more, hmore, hcons⟩ := Outcome.bind_eq_ok.mp h
    obtain rfl := Except.ok.inj hcons
    exact .word (List.cons_ne_nil _ _) hword hrest htoken (ih hmore)
  | case4 p c rest hspace hletter kind hkind ih =>
    rw [lexFrom_mark hkind, Outcome.bind_eq_ok] at h
    obtain ⟨more, hmore, hcons⟩ := h
    obtain rfl := Except.ok.inj hcons
    exact .mark hkind (ih hmore)
  | case5 p c rest hspace hletter hnone =>
    rw [lexFrom_foreign hspace hletter hnone] at h
    cases h

theorem lexFrom_eq_ok_iff : lexFrom p cs = .ok tokens ↔ Lexes p cs tokens :=
  ⟨lexes_of_lexFrom, lexFrom_of_lexes⟩

/-- What a word is, where it is a token. -/
theorem ofWord_ok (h : ofWord p word = .ok token) :
    (word = ['A', 'N', 'D'] ∧ token = ⟨.operator .and, p, "AND"⟩) ∨
      (word = ['O', 'R'] ∧ token = ⟨.operator .or, p, "OR"⟩) ∨
      token = ⟨.var, p, String.ofList (word.map Char.toLower)⟩ := by
  unfold ofWord at h
  split at h
  · exact Or.inl ⟨‹_›, (Except.ok.inj h).symm⟩
  · split at h
    · exact Or.inr (Or.inl ⟨‹_›, (Except.ok.inj h).symm⟩)
    · split at h
      · cases h
      · exact Or.inr (Or.inr (Except.ok.inj h).symm)

theorem ofWord_kind (h : ofWord p word = .ok token) :
    token.kind = .var ∨ ∃ op, token.kind = .operator op := by
  rcases ofWord_ok h with ⟨-, rfl⟩ | ⟨-, rfl⟩ | rfl
  · exact Or.inr ⟨.and, rfl⟩
  · exact Or.inr ⟨.or, rfl⟩
  · exact Or.inl rfl

theorem body_cons (h : token.kind ≠ .finish) (tokens : List Token) :
    body (token :: tokens) = token :: body tokens := by
  simp [body, h]

theorem ne_finish_of_mark (hc : markKind? c = some kind) : kind ≠ .finish := by
  rcases mark_cases hc with ⟨-, rfl⟩ | ⟨-, rfl⟩ | ⟨-, rfl⟩ | ⟨-, rfl⟩ <;> simp

theorem ne_finish_of_word (htoken : ofWord p word = .ok token) : token.kind ≠ .finish := by
  rcases ofWord_kind htoken with h | ⟨op, h⟩ <;> simp [h]

theorem body_cons_mark (hc : markKind? c = some kind) (tokens : List Token) :
    body (⟨kind, p, String.singleton c⟩ :: tokens) =
      ⟨kind, p, String.singleton c⟩ :: body tokens :=
  body_cons (ne_finish_of_mark hc) tokens

theorem body_cons_word (htoken : ofWord p word = .ok token) (tokens : List Token) :
    body (token :: tokens) = token :: body tokens :=
  body_cons (ne_finish_of_word htoken) tokens

/-- The only end mark stands at the end of the text. -/
theorem Lexes.eq_body_append (h : Lexes p cs tokens) :
    tokens = body tokens ++ [⟨.finish, (p + cs.length : Nat), ""⟩] := by
  induction h with
  | finish p => rfl
  | @space p c rest tokens hc h ih =>
    rw [List.length_cons, Nat.add_comm rest.length, ← Nat.add_assoc]
    exact ih
  | @mark p c kind rest tokens hc h ih =>
    rw [body_cons_mark hc, List.length_cons, Nat.add_comm rest.length, ← Nat.add_assoc]
    exact congrArg _ ih
  | @word p word rest token tokens hne hword hrest htoken h ih =>
    rw [body_cons_word htoken, List.length_append, ← Nat.add_assoc]
    exact congrArg _ ih

/-- No word runs from the end of one text on into the other. -/
def Separate (xs ys : List Char) : Prop :=
  ∀ c ∈ xs.getLast?, isLetter c = true → ∀ d ∈ ys.head?, ¬isLetter d = true

theorem separate_cons (xs : List Char) {d : Char} (hd : ¬isLetter d = true) (ys : List Char) :
    Separate xs (d :: ys) := by
  intro c hc hletter x hx
  obtain rfl : d = x := Option.some.inj hx
  exact hd

theorem separate_singleton {c : Char} (hc : ¬isLetter c = true) (ys : List Char) :
    Separate [c] ys := by
  intro d hd hletter
  obtain rfl : c = d := Option.some.inj hd
  exact absurd hletter hc

theorem Separate.of_append (front : List Char) {xs ys : List Char}
    (h : Separate (front ++ xs) ys) : Separate xs ys := by
  intro c hc
  refine h c ?_
  rw [Option.mem_def] at hc ⊢
  rw [List.getLast?_append, hc, Option.some_or]

/-- Where the letters of a word end in the first of two texts, they end in both together. -/
theorem Separate.not_isLetter_head {xs ys : List Char} (hne : word ≠ [])
    (hword : ∀ c ∈ word, isLetter c = true) (hrest : ∀ c ∈ xs.head?, ¬isLetter c = true)
    (h : Separate (word ++ xs) ys) : ∀ c ∈ (xs ++ ys).head?, ¬isLetter c = true := by
  cases xs with
  | nil =>
    have hlast := List.getLast_mem hne
    refine h (word.getLast hne) ?_ (hword _ hlast)
    rw [List.append_nil, List.getLast?_eq_some_getLast hne]
    exact rfl
  | cons x more => exact hrest

/-- A token in front of the tokens of two texts stands in front of those of the first. -/
theorem cons_append_body (h : token.kind ≠ .finish) (x y : Except LexError (List Token)) :
    (do
      let ts ← (do
        let ts ← x
        return token :: ts)
      let us ← y
      return body ts ++ us) = (do
      let ts ← (do
        let ts ← x
        let us ← y
        return body ts ++ us)
      return token :: ts) := by
  cases x with
  | error e => rfl
  | ok ts =>
    cases y with
    | error e => rfl
    | ok us => exact congrArg (fun front => Except.ok (front ++ us)) (body_cons h ts)

/-- Lexing two texts that are put together is lexing the one and then the other. -/
theorem lexFrom_append {xs ys : List Char} (h : Separate xs ys) :
    lexFrom p (xs ++ ys) = (do
      let ts ← lexFrom p xs
      let us ← lexFrom (p + xs.length) ys
      return body ts ++ us) := by
  induction p, xs using lexFrom.induct with
  | case1 p =>
    rw [lexFrom.eq_1 p]
    change lexFrom p ys = (lexFrom p ys >>= pure)
    cases lexFrom p ys <;> rfl
  | case2 p c rest hc ih =>
    rw [List.cons_append, lexFrom_space hc, lexFrom_space hc, ih (h.of_append [c]),
      List.length_cons, Nat.add_assoc, Nat.add_comm 1]
  | case3 p c rest hspace hc _ =>
    rename_i ih
    obtain ⟨hword, hrest, hsplit⟩ := cons_takeWhile hc rest
    have hne : c :: rest.takeWhile isLetter ≠ [] := List.cons_ne_nil _ _
    rw [hsplit] at h ⊢
    rw [List.append_assoc, lexFrom_word hne hword (h.not_isLetter_head hne hword hrest),
      lexFrom_word hne hword hrest, ih (h.of_append _), List.length_append, Nat.add_assoc]
    cases htoken : ofWord p (c :: rest.takeWhile isLetter) with
    | error e => rfl
    | ok token => exact (cons_append_body (ne_finish_of_word htoken) _ _).symm
  | case4 p c rest hspace hletter kind hkind ih =>
    have hfinish : kind ≠ .finish := ne_finish_of_mark hkind
    rw [List.cons_append, lexFrom_mark hkind, lexFrom_mark hkind, ih (h.of_append [c]),
      List.length_cons, Nat.add_assoc, Nat.add_comm 1]
    exact (cons_append_body hfinish _ _).symm
  | case5 p c rest hspace hletter hnone =>
    rw [List.cons_append, lexFrom_foreign hspace hletter hnone,
      lexFrom_foreign hspace hletter hnone]
    rfl

/-- The tokens of texts that are put together. -/
theorem Lexes.append {xs ys : List Char} {ts us : List Token} (hx : Lexes p xs ts)
    (hy : Lexes (p + xs.length) ys us) (hseparate : Separate xs ys) :
    Lexes p (xs ++ ys) (body ts ++ us) := by
  apply lexes_of_lexFrom
  rw [lexFrom_append hseparate, lexFrom_of_lexes hx, lexFrom_of_lexes hy]
  rfl

theorem ofChar?_of_isLetter (h : isLetter c = true) : Bracket.ofChar? c = none := by
  apply Bracket.ofChar?_eq_none
  · rintro rfl
    exact absurd h (by decide)
  · rintro rfl
    exact absurd h (by decide)

theorem ofChar?_of_isSpace (h : isSpace c = true) : Bracket.ofChar? c = none := by
  apply Bracket.ofChar?_eq_none
  · rintro rfl
    exact absurd h (by decide)
  · rintro rfl
    exact absurd h (by decide)

/-- The brackets of the tokens are those of the text. -/
theorem Lexes.brackets_eq (h : Lexes p cs tokens) :
    brackets tokens = cs.filterMap Bracket.ofChar? := by
  induction h with
  | finish p => rfl
  | space hc h ih => rw [List.filterMap_cons_none (ofChar?_of_isSpace hc), ih]
  | @mark p c kind rest tokens hc h ih =>
    rcases mark_cases hc with ⟨rfl, rfl⟩ | ⟨rfl, rfl⟩ | ⟨rfl, rfl⟩ | ⟨rfl, rfl⟩
    · exact ih
    · exact ih
    · exact congrArg _ ih
    · exact congrArg _ ih
  | @word p word rest token tokens hne hword hrest htoken h ih =>
    have hletters : word.filterMap Bracket.ofChar? = [] :=
      List.filterMap_eq_nil_iff.mpr fun d hd => ofChar?_of_isLetter (hword d hd)
    have htoken' : brackets (token :: tokens) = brackets tokens := by
      rcases ofWord_kind htoken with hkind | ⟨op, hkind⟩ <;>
        exact brackets_other (by simp [hkind]) (by simp [hkind]) tokens
    rw [htoken', ih, List.filterMap_append, hletters, List.nil_append]

theorem toNat_toLower (c : Char) :
    c.toLower.toNat = if isCapital c = true then c.toNat + 32 else c.toNat := by
  have hcapital : (c.val ≥ 'A'.val ∧ c.val ≤ 'Z'.val) ↔ isCapital c = true := by
    simp [isCapital, Char.le_def]
  unfold Char.toLower
  split
  · rename_i h
    have hbound := isCapital_iff.mp (hcapital.mp h)
    rw [if_pos (hcapital.mp h)]
    change (c.val.toNat + 32) % 2 ^ 32 = c.toNat + 32
    rw [Char.toNat_val]
    omega
  · rename_i h
    rw [if_neg (fun hc => h (hcapital.mpr hc))]

def IsNameChar (c : Char) : Prop := 'a' ≤ c ∧ c ≤ 'z'

theorem isNameChar_iff : IsNameChar c ↔ 97 ≤ c.toNat ∧ c.toNat ≤ 122 := by
  simp only [IsNameChar, Char.le_def, UInt32.le_iff_toNat_le, Char.toNat_val, Char.reduceToNat]

theorem isNameChar_toLower (h : isLetter c = true) : IsNameChar c.toLower := by
  rw [isNameChar_iff, toNat_toLower]
  rw [isLetter_iff] at h
  split
  · rename_i hcapital
    have := isCapital_iff.mp hcapital
    omega
  · rename_i hcapital
    have := mt isCapital_iff.mpr hcapital
    omega

theorem toLower_of_isNameChar (h : IsNameChar c) : c.toLower = c := by
  have hcapital : ¬isCapital c = true := by
    rw [isCapital_iff]
    have := isNameChar_iff.mp h
    omega
  apply Char.toNat_inj.mp
  rw [toNat_toLower, if_neg hcapital]

theorem isLetter_of_isNameChar (h : IsNameChar c) : isLetter c = true :=
  isLetter_iff.mpr (Or.inr (isNameChar_iff.mp h))

def IsName (name : String) : Prop := name ≠ "" ∧ ∀ c ∈ name.toList, IsNameChar c

theorem Lexes.isName (h : Lexes p cs tokens) : ∀ t ∈ tokens, t.kind = .var → IsName t.text := by
  induction h with
  | finish p => simp
  | space hc h ih => exact ih
  | mark hc h ih =>
    intro t ht hvar
    rcases List.mem_cons.mp ht with rfl | ht
    · rcases mark_cases hc with ⟨-, rfl⟩ | ⟨-, rfl⟩ | ⟨-, rfl⟩ | ⟨-, rfl⟩ <;> simp at hvar
    · exact ih t ht hvar
  | @word p word rest token tokens hne hword hrest htoken h ih =>
    intro t ht hvar
    rcases List.mem_cons.mp ht with rfl | ht
    · rcases ofWord_ok htoken with ⟨-, rfl⟩ | ⟨-, rfl⟩ | rfl
      · simp at hvar
      · simp at hvar
      · refine ⟨by simpa using hne, fun c hc => ?_⟩
        rw [String.toList_ofList, List.mem_map] at hc
        obtain ⟨d, hd, rfl⟩ := hc
        exact isNameChar_toLower (hword d hd)
    · exact ih t ht hvar

/-- A name is a variable, whatever it would be in capitals. -/
theorem ofWord_name {name : String} (h : IsName name) :
    ofWord p name.toList = .ok ⟨.var, p, name⟩ := by
  have hcapital : ∀ c ∈ name.toList, ¬isCapital c = true := by
    intro c hc
    rw [isCapital_iff]
    have := isNameChar_iff.mp (h.2 c hc)
    omega
  have hlower : name.toList.map Char.toLower = name.toList :=
    (List.map_congr_left fun c hc => toLower_of_isNameChar (h.2 c hc)).trans (List.map_id _)
  have hne : name.toList ≠ [] := by simpa using h.1
  obtain ⟨c, more, hcs⟩ := List.exists_cons_of_ne_nil hne
  have hc : ¬isCapital c = true := hcapital c (by simp [hcs])
  have hand : name.toList ≠ ['A', 'N', 'D'] := fun heq => hcapital 'A' (by simp [heq]) (by decide)
  have hor : name.toList ≠ ['O', 'R'] := fun heq => hcapital 'O' (by simp [heq]) (by decide)
  have hall : ¬(name.toList.all isCapital = true ∧ 1 < name.toList.length) := by
    rintro ⟨hall, -⟩
    exact hc (List.all_eq_true.mp hall c (by simp [hcs]))
  rw [ofWord, if_neg hand, if_neg hor, if_neg hall, hlower, String.ofList_toList]

theorem lexes_name {name : String} (h : IsName name) :
    Lexes p name.toList [⟨.var, p, name⟩, ⟨.finish, (p + name.toList.length : Nat), ""⟩] := by
  have hword : ∀ c ∈ name.toList, isLetter c = true :=
    fun c hc => isLetter_of_isNameChar (h.2 c hc)
  have hlexes : Lexes p (name.toList ++ []) _ := .word (by simpa using h.1) hword (by simp)
    (ofWord_name h) (.finish (p + name.toList.length))
  rwa [List.append_nil] at hlexes

end BoolExpr.Token
