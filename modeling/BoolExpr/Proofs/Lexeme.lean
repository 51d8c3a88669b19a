import BoolExpr.Proofs.Lexing
import Mathlib.Tactic.ByContra

/-!
The lexemes of expressions: the marks 0, 1, ( and ), the words of the operators, and the words of
variables, which are a single letter or letters of which one at least is small. A lexeme is
determined by its characters, and is a token on its own wherever no letter follows a word.
-/
namespace BoolExpr

open Token (isLetter isSpace)

/-- The characters that may stand between lexemes: space, tab, carriage return, line feed, form feed
and vertical tab. -/
def blanks : List Char := [' ', '\t', '\r', '\n', '\x0c', '\x0b']

theorem isSpace_iff_mem_blanks {c : Char} : isSpace c = true ↔ c ∈ blanks := by
  rw [Token.isSpace_iff]
  simp only [blanks, List.mem_cons, List.not_mem_nil, or_false, ← Char.toNat_inj, Char.reduceToNat]
  omega

theorem not_isLetter_of_mem_blanks {c : Char} (hc : c ∈ blanks) : ¬isLetter c = true :=
  fun hletter => Token.not_isSpace_of_isLetter hletter (isSpace_iff_mem_blanks.mpr hc)

/-- The words that are variables: a single letter, or letters of which one at least is small. -/
structure IsVariable (letters : List Char) : Prop where
  ne_nil : letters ≠ []
  letter : ∀ c ∈ letters, isLetter c = true
  small : letters.length = 1 ∨ ∃ c ∈ letters, 'a' ≤ c ∧ c ≤ 'z'

inductive Lexeme where
  | literal (value : Bool)
  | opening
  | closing
  | operator (op : Op)
  | var (letters : List Char) (h : IsVariable letters)

namespace Lexeme

def chars : Lexeme → List Char
  | .literal value => [if value then '1' else '0']
  | .opening => ['(']
  | .closing => [')']
  | .operator op => op.word.toList
  | .var letters _ => letters

def kind : Lexeme → Token.Kind
  | .literal value => .literal value
  | .opening => .opening
  | .closing => .closing
  | .operator op => .operator op
  | .var _ _ => .var

def text : Lexeme → String
  | .var letters _ => String.ofList (letters.map Char.toLower)
  | x => String.ofList x.chars

def token (p : Nat) (x : Lexeme) : Token := ⟨x.kind, p, x.text⟩

def IsWord : Lexeme → Prop
  | .operator _ | .var _ _ => True
  | _ => False

variable {p : Nat} {x y : Lexeme} {c : Char} {kind : Token.Kind} {word rest : List Char}
  {t : Token} {tokens : List Token}

theorem isLetter_of_mem (h : x.IsWord) : ∀ c ∈ x.chars, isLetter c = true := by
  cases x with
  | operator op =>
    have hall : op.word.toList.all isLetter = true := by cases op <;> rfl
    exact List.all_eq_true.mp hall
  | var letters hletters => exact hletters.letter
  | literal value => exact h.elim
  | opening => exact h.elim
  | closing => exact h.elim

theorem chars_ne_nil (x : Lexeme) : x.chars ≠ [] := by
  cases x with
  | operator op => cases op <;> exact List.cons_ne_nil _ _
  | var letters hletters => exact hletters.ne_nil
  | literal value => exact List.cons_ne_nil _ _
  | opening => exact List.cons_ne_nil _ _
  | closing => exact List.cons_ne_nil _ _

/-- What is no word is a single mark. -/
theorem exists_mark (h : ¬x.IsWord) :
    ∃ c, x.chars = [c] ∧ Token.markKind? c = some x.kind ∧ x.text = String.singleton c := by
  cases x with
  | literal value => cases value <;> exact ⟨_, rfl, rfl, rfl⟩
  | opening => exact ⟨_, rfl, rfl, rfl⟩
  | closing => exact ⟨_, rfl, rfl, rfl⟩
  | operator op => exact absurd trivial h
  | var letters hletters => exact absurd trivial h

theorem exists_of_mark (hc : Token.markKind? c = some kind) :
    ∃ x : Lexeme, ¬x.IsWord ∧ x.chars = [c] ∧ x.kind = kind ∧ x.text = String.singleton c := by
  rcases Token.mark_cases hc with ⟨rfl, rfl⟩ | ⟨rfl, rfl⟩ | ⟨rfl, rfl⟩ | ⟨rfl, rfl⟩
  · exact ⟨.literal false, id, rfl, rfl, rfl⟩
  · exact ⟨.literal true, id, rfl, rfl, rfl⟩
  · exact ⟨.opening, id, rfl, rfl, rfl⟩
  · exact ⟨.closing, id, rfl, rfl, rfl⟩

theorem not_isCapital_of_small (h : 'a' ≤ c ∧ c ≤ 'z') : ¬Token.isCapital c = true := by
  have hname : 97 ≤ c.toNat ∧ c.toNat ≤ 122 := Token.isNameChar_iff.mp h
  rw [Token.isCapital_iff]
  omega

theorem small_of_not_isCapital (hletter : isLetter c = true) (h : ¬Token.isCapital c = true) :
    'a' ≤ c ∧ c ≤ 'z' := by
  have hname : Token.IsNameChar c := by
    rw [Token.isLetter_iff] at hletter
    rw [Token.isCapital_iff] at h
    rw [Token.isNameChar_iff]
    omega
  exact hname

theorem not_all_isCapital (h : IsVariable word) :
    ¬(word.all Token.isCapital = true ∧ 1 < word.length) := by
  rintro ⟨hall, hlong⟩
  rcases h.small with hone | ⟨c, hc, hsmall⟩
  · omega
  · exact not_isCapital_of_small hsmall (List.all_eq_true.mp hall c hc)

/-- The words of operators are no variables. -/
theorem word_ne_of_isVariable (h : IsVariable word) (op : Op) : word ≠ op.word.toList := by
  rintro rfl
  refine not_all_isCapital h ⟨?_, ?_⟩
  · cases op <;> rfl
  · cases op <;> decide

theorem ofWord_chars (h : x.IsWord) : Token.ofWord p x.chars = .ok (x.token p) := by
  cases x with
  | operator op => cases op <;> rfl
  | var letters hletters =>
    have hand : letters ≠ ['A', 'N', 'D'] := word_ne_of_isVariable hletters .and
    have hor : letters ≠ ['O', 'R'] := word_ne_of_isVariable hletters .or
    rw [chars, Token.ofWord, if_neg hand, if_neg hor, if_neg (not_all_isCapital hletters)]
    rfl
  | literal value => exact h.elim
  | opening => exact h.elim
  | closing => exact h.elim

/-- A word of letters that is a token is a lexeme. -/
theorem exists_of_word (hne : word ≠ []) (hword : ∀ c ∈ word, isLetter c = true)
    (h : Token.ofWord p word = .ok t) :
    ∃ x : Lexeme, x.IsWord ∧ x.chars = word ∧ x.token p = t := by
  unfold Token.ofWord at h
  split at h
  · rename_i hand
    exact ⟨.operator .and, trivial, hand.symm, Except.ok.inj h⟩
  · split at h
    · rename_i hor
      exact ⟨.operator .or, trivial, hor.symm, Except.ok.inj h⟩
    · split at h
      · cases h
      · rename_i hcapitals
        have hsmall : word.length = 1 ∨ ∃ c ∈ word, 'a' ≤ c ∧ c ≤ 'z' := by
          by_cases hall : word.all Token.isCapital = true
          · have hpos : 0 < word.length := List.length_pos_iff.mpr hne
            have hshort : ¬1 < word.length := fun hlong => hcapitals ⟨hall, hlong⟩
            exact Or.inl (by omega)
          · have hsome : ∃ c ∈ word, ¬Token.isCapital c = true := by simpa using hall
            obtain ⟨c, hc, hcapital⟩ := hsome
            exact Or.inr ⟨c, hc, small_of_not_isCapital (hword c hc) hcapital⟩
        exact ⟨.var word ⟨hne, hword, hsmall⟩, trivial, rfl, Except.ok.inj h⟩

/-- Whether a lexeme is a word can be seen from its first character. -/
theorem isWord_iff_head (h : x.chars.head? = some c) : x.IsWord ↔ isLetter c = true := by
  constructor
  · intro hx
    exact isLetter_of_mem hx c (List.mem_of_mem_head? h)
  · intro hletter
    by_contra hx
    obtain ⟨d, hchars, hmark, -⟩ := exists_mark hx
    obtain rfl : d = c := by simpa [hchars] using h
    exact Token.not_isLetter_of_mark hmark hletter

theorem not_mem_blanks_head (h : x.chars.head? = some c) : c ∉ blanks := by
  rw [← isSpace_iff_mem_blanks]
  by_cases hx : x.IsWord
  · exact Token.not_isSpace_of_isLetter ((isWord_iff_head h).mp hx)
  · obtain ⟨d, hchars, hmark, -⟩ := exists_mark hx
    obtain rfl : d = c := by simpa [hchars] using h
    exact Token.not_isSpace_of_mark hmark

theorem kind_eq_of_chars (h : x.chars = y.chars) : x.kind = y.kind := by
  obtain ⟨c, more, hx⟩ := List.exists_cons_of_ne_nil x.chars_ne_nil
  have hxc : x.chars.head? = some c := by rw [hx]; rfl
  have hyc : y.chars.head? = some c := by rw [← h, hxc]
  by_cases hword : x.IsWord
  · have hword' : y.IsWord := (isWord_iff_head hyc).mpr ((isWord_iff_head hxc).mp hword)
    have htoken : Except.ok (x.token 0) = (Except.ok (y.token 0) : Except LexError Token) := by
      rw [← ofWord_chars hword, ← ofWord_chars hword', h]
    exact congrArg Token.kind (Except.ok.inj htoken)
  · have hword' : ¬y.IsWord := fun hy =>
      hword ((isWord_iff_head hxc).mpr ((isWord_iff_head hyc).mp hy))
    obtain ⟨d, hd, hkind, -⟩ := exists_mark hword
    obtain ⟨d', hd', hkind', -⟩ := exists_mark hword'
    obtain rfl : d = d' := by simpa [hd, hd'] using h
    exact Option.some.inj (hkind.symm.trans hkind')

theorem eq_opening_of_kind (h : x.kind = .opening) : x = .opening := by
  cases x <;> simp_all [Lexeme.kind]

theorem eq_closing_of_kind (h : x.kind = .closing) : x = .closing := by
  cases x <;> simp_all [Lexeme.kind]

theorem eq_operator_of_kind {op : Op} (h : x.kind = .operator op) : x = .operator op := by
  cases x <;> simp_all [Lexeme.kind]

theorem chars_injective (h : x.chars = y.chars) : x = y := by
  have hkind := kind_eq_of_chars h
  cases x <;> cases y <;> simp_all [kind, chars]

/-- No lexeme has a space in it. -/
theorem space_not_mem_text (x : Lexeme) : ' ' ∉ x.text.toList := by
  cases x with
  | literal value => cases value <;> decide
  | opening => decide
  | closing => decide
  | operator op => cases op <;> decide
  | var letters hletters =>
    rw [text, String.toList_ofList, List.mem_map]
    rintro ⟨c, hc, hspace⟩
    have hname := Token.isNameChar_toLower (hletters.letter c hc)
    rw [hspace] at hname
    exact absurd hname (by unfold Token.IsNameChar; decide)

/-- A lexeme in front of a text; a word ends where the text begins with no letter. -/
theorem lexes_append (hrest : x.IsWord → ∀ c ∈ rest.head?, ¬isLetter c = true)
    (h : Token.Lexes (p + x.chars.length) rest tokens) :
    Token.Lexes p (x.chars ++ rest) (x.token p :: tokens) := by
  by_cases hx : x.IsWord
  · exact .word x.chars_ne_nil (isLetter_of_mem hx) (hrest hx) (ofWord_chars hx) h
  · obtain ⟨c, hchars, hmark, htext⟩ := exists_mark hx
    rw [hchars] at h ⊢
    rw [token, htext]
    exact .mark hmark h

end Lexeme

end BoolExpr
