import BoolExpr.Proofs.Lexeme
import Mathlib.Data.List.Chain

/-!
Texts as lexemes with white space between them. A division of a text says what its lexemes are and
what white space stands around them; words never touch. The main statement is that lexing succeeds
exactly on the texts that have a division, with the token of each lexeme at its place and the end
mark after them, and that no text has two divisions.
-/
namespace BoolExpr

open Token (isLetter isSpace)

structure Piece where
  lexeme : Lexeme
  gap : List Char
  blank : ∀ c ∈ gap, c ∈ blanks

namespace Piece

def chars (x : Piece) : List Char := x.lexeme.chars ++ x.gap

/-- White space keeps two words apart. -/
def Apart (x y : Piece) : Prop := x.lexeme.IsWord → y.lexeme.IsWord → x.gap ≠ []

def spelled (pieces : List Piece) : List Char := pieces.flatMap chars

def tokensFrom (p : Nat) : List Piece → List Token
  | [] => []
  | x :: rest => x.lexeme.token p :: tokensFrom (p + x.chars.length) rest

end Piece

/-- A text as white space and, any number of times, a lexeme with the white space after it. -/
structure Division where
  lead : List Char
  pieces : List Piece
  blank : ∀ c ∈ lead, c ∈ blanks
  apart : pieces.IsChain Piece.Apart

namespace Division

def text (x : Division) : List Char := x.lead ++ Piece.spelled x.pieces

/-- The token of each lexeme, at the place of the lexeme, and the end mark, when the text begins at
a position. -/
def tokensAt (p : Nat) (x : Division) : List Token :=
  Piece.tokensFrom (p + x.lead.length) x.pieces ++ [⟨.finish, (p + x.text.length : Nat), ""⟩]

def tokens (x : Division) : List Token := x.tokensAt 0

end Division

namespace Piece

variable {p : Nat} {x y : Piece} {rest xs ys : List Piece} {gap gap' cs : List Char}
  {tokens : List Token}

theorem spelled_cons (x : Piece) (rest : List Piece) :
    spelled (x :: rest) = x.lexeme.chars ++ (x.gap ++ spelled rest) := by
  rw [spelled, List.flatMap_cons, chars, List.append_assoc]
  rfl

theorem spelled_singleton (x : Piece) : spelled [x] = x.chars :=
  List.flatMap_singleton chars x

theorem length_spelled_cons (x : Piece) (rest : List Piece) :
    (spelled (x :: rest)).length = x.chars.length + (spelled rest).length := by
  rw [spelled_cons, ← List.append_assoc, List.length_append]
  rfl

theorem spelled_append (xs ys : List Piece) : spelled (xs ++ ys) = spelled xs ++ spelled ys :=
  List.flatMap_append

theorem tokensFrom_append (p : Nat) (xs ys : List Piece) :
    tokensFrom p (xs ++ ys) = tokensFrom p xs ++ tokensFrom (p + (spelled xs).length) ys := by
  induction xs generalizing p with
  | nil => rfl
  | cons x rest ih =>
    rw [List.cons_append, tokensFrom, tokensFrom, ih, length_spelled_cons, Nat.add_assoc,
      List.cons_append]

theorem tokensFrom_ne_finish (p : Nat) (pieces : List Piece) :
    ∀ t ∈ tokensFrom p pieces, t.kind ≠ .finish := by
  induction pieces generalizing p with
  | nil => simp [tokensFrom]
  | cons x rest ih =>
    intro t ht
    rcases List.mem_cons.mp ht with rfl | ht
    · obtain ⟨lexeme, gap, hblank⟩ := x
      cases lexeme <;> simp [Lexeme.token, Lexeme.kind]
    · exact ih _ t ht

theorem head?_spelled_cons (x : Piece) (rest : List Piece) :
    (spelled (x :: rest)).head? = x.lexeme.chars.head? := by
  rw [spelled_cons, List.head?_append_of_ne_nil _ x.lexeme.chars_ne_nil]

/-- After white space, pieces begin with a letter exactly if there is none and a word comes
first. -/
theorem not_isLetter_head_iff (hgap : ∀ c ∈ gap, c ∈ blanks) :
    (∀ c ∈ (gap ++ spelled rest).head?, ¬isLetter c = true) ↔
      ∀ y ∈ rest.head?, y.lexeme.IsWord → gap ≠ [] := by
  cases gap with
  | cons d more =>
    have hletter : ¬isLetter d = true := not_isLetter_of_mem_blanks (hgap d (by simp))
    simp [hletter]
  | nil =>
    cases rest with
    | nil => simp [spelled]
    | cons y more =>
      obtain ⟨d, tail, hchars⟩ := List.exists_cons_of_ne_nil y.lexeme.chars_ne_nil
      have hhead : y.lexeme.chars.head? = some d := by rw [hchars]; rfl
      rw [List.nil_append, head?_spelled_cons, hhead]
      simp [Lexeme.isWord_iff_head hhead]

theorem not_isSpace_head (pieces : List Piece) :
    ∀ c ∈ (spelled pieces).head?, ¬isSpace c = true := by
  intro c hc
  cases pieces with
  | nil => simp [spelled] at hc
  | cons x rest =>
    rw [head?_spelled_cons] at hc
    rw [isSpace_iff_mem_blanks]
    exact Lexeme.not_mem_blanks_head hc

theorem lexes_blank (hgap : ∀ c ∈ gap, c ∈ blanks)
    (h : Token.Lexes (p + gap.length) cs tokens) : Token.Lexes p (gap ++ cs) tokens := by
  induction gap generalizing p with
  | nil => exact h
  | cons c more ih =>
    have hspace : isSpace c = true := isSpace_iff_mem_blanks.mpr (hgap c (by simp))
    refine .space hspace (ih (fun d hd => hgap d (by simp [hd])) ?_)
    rwa [List.length_cons, Nat.add_comm more.length, ← Nat.add_assoc] at h

/-- Pieces that are kept apart have the tokens of their lexemes. -/
theorem lexes_spelled (h : rest.IsChain Apart) :
    Token.Lexes p (spelled rest)
      (tokensFrom p rest ++ [⟨.finish, (p + (spelled rest).length : Nat), ""⟩]) := by
  induction rest generalizing p with
  | nil => exact .finish p
  | cons x more ih =>
    obtain ⟨hhead, hmore⟩ := List.isChain_cons.mp h
    have hafter : x.lexeme.IsWord → ∀ c ∈ (x.gap ++ spelled more).head?, ¬isLetter c = true := by
      intro hword
      rw [not_isLetter_head_iff x.blank]
      exact fun y hy hword' => hhead y hy hword hword'
    have hrest := ih hmore (p := p + x.chars.length)
    rw [length_spelled_cons, spelled_cons, tokensFrom, List.cons_append, ← Nat.add_assoc]
    refine Lexeme.lexes_append hafter (lexes_blank x.blank ?_)
    rwa [chars, List.length_append, ← Nat.add_assoc] at hrest ⊢

/-- Where texts are cut by a class of characters that the second part does not begin with. -/
theorem append_inj_of_boundary {q : Char → Bool} {as bs as' bs' : List Char}
    (ha : ∀ c ∈ as, q c = true) (hb : ∀ c ∈ bs.head?, ¬q c = true) (ha' : ∀ c ∈ as', q c = true)
    (hb' : ∀ c ∈ bs'.head?, ¬q c = true) (h : as ++ bs = as' ++ bs') : as = as' ∧ bs = bs' := by
  induction as generalizing as' with
  | nil =>
    cases as' with
    | nil => exact ⟨rfl, h⟩
    | cons c more =>
      subst h
      exact absurd (ha' c (by simp)) (hb c rfl)
  | cons c more ih =>
    cases as' with
    | nil =>
      subst h
      exact absurd (ha c (by simp)) (hb' c rfl)
    | cons c' more' =>
      obtain ⟨rfl, htail⟩ := List.cons.inj h
      obtain ⟨rfl, hrest⟩ :=
        ih (fun d hd => ha d (by simp [hd])) (fun d hd => ha' d (by simp [hd])) htail
      exact ⟨rfl, hrest⟩

theorem gap_unique (hgap : ∀ c ∈ gap, c ∈ blanks) (hgap' : ∀ c ∈ gap', c ∈ blanks)
    (h : gap ++ spelled xs = gap' ++ spelled ys) : gap = gap' ∧ spelled xs = spelled ys :=
  append_inj_of_boundary (fun c hc => isSpace_iff_mem_blanks.mpr (hgap c hc)) (not_isSpace_head xs)
    (fun c hc => isSpace_iff_mem_blanks.mpr (hgap' c hc)) (not_isSpace_head ys) h

/-- The first lexeme of pieces that are kept apart is determined by their text. -/
theorem lexeme_unique (hx : (x :: xs).IsChain Apart) (hy : (y :: ys).IsChain Apart)
    (h : spelled (x :: xs) = spelled (y :: ys)) :
    x.lexeme = y.lexeme ∧ x.gap ++ spelled xs = y.gap ++ spelled ys := by
  have hhead := congrArg List.head? h
  rw [head?_spelled_cons, head?_spelled_cons] at hhead
  obtain ⟨c, more, hchars⟩ := List.exists_cons_of_ne_nil x.lexeme.chars_ne_nil
  have hxc : x.lexeme.chars.head? = some c := by rw [hchars]; rfl
  have hyc : y.lexeme.chars.head? = some c := by rw [← hhead, hxc]
  rw [spelled_cons, spelled_cons] at h
  -- a word ends with its letters since the pieces are apart; a mark is one character anyway
  by_cases hword : x.lexeme.IsWord
  · have hword' : y.lexeme.IsWord :=
      (Lexeme.isWord_iff_head hyc).mpr ((Lexeme.isWord_iff_head hxc).mp hword)
    have hafter : ∀ c ∈ (x.gap ++ spelled xs).head?, ¬isLetter c = true :=
      (not_isLetter_head_iff x.blank).mpr fun z hz => (List.isChain_cons.mp hx).1 z hz hword
    have hafter' : ∀ c ∈ (y.gap ++ spelled ys).head?, ¬isLetter c = true :=
      (not_isLetter_head_iff y.blank).mpr fun z hz => (List.isChain_cons.mp hy).1 z hz hword'
    obtain ⟨hsame, hrest⟩ := append_inj_of_boundary (Lexeme.isLetter_of_mem hword) hafter
      (Lexeme.isLetter_of_mem hword') hafter' h
    exact ⟨Lexeme.chars_injective hsame, hrest⟩
  · have hword' : ¬y.lexeme.IsWord := fun hy' =>
      hword ((Lexeme.isWord_iff_head hxc).mpr ((Lexeme.isWord_iff_head hyc).mp hy'))
    obtain ⟨d, hd, -⟩ := Lexeme.exists_mark hword
    obtain ⟨d', hd', -⟩ := Lexeme.exists_mark hword'
    rw [hd, hd'] at h
    obtain ⟨hsame, hrest⟩ := List.append_inj h rfl
    exact ⟨Lexeme.chars_injective (by rw [hd, hd', hsame]), hrest⟩

theorem pieces_unique (hx : xs.IsChain Apart) (hy : ys.IsChain Apart)
    (h : spelled xs = spelled ys) : xs = ys := by
  induction xs generalizing ys with
  | nil =>
    cases ys with
    | nil => rfl
    | cons y more =>
      have hhead := congrArg List.head? h
      rw [head?_spelled_cons] at hhead
      exact absurd (List.head?_eq_none_iff.mp hhead.symm) y.lexeme.chars_ne_nil
  | cons x xs ih =>
    cases ys with
    | nil =>
      have hhead := congrArg List.head? h
      rw [head?_spelled_cons] at hhead
      exact absurd (List.head?_eq_none_iff.mp hhead) x.lexeme.chars_ne_nil
    | cons y ys =>
      obtain ⟨hlexeme, hafter⟩ := lexeme_unique hx hy h
      obtain ⟨hgap, hrest⟩ := gap_unique x.blank y.blank hafter
      have hmore := ih (List.isChain_cons.mp hx).2 (List.isChain_cons.mp hy).2 hrest
      obtain ⟨lexeme, gap, hblank⟩ := x
      obtain ⟨lexeme', gap', hblank'⟩ := y
      obtain rfl : lexeme = lexeme' := hlexeme
      obtain rfl : gap = gap' := hgap
      rw [hmore]

/-- The tokens of pieces lie within the text of the pieces, one after the other. -/
theorem positions_tokensFrom (p : Nat) (pieces : List Piece) :
    (∀ t ∈ tokensFrom p pieces, (p : Int) ≤ t.position ∧
      t.position < (p + (spelled pieces).length : Nat)) ∧
    ((tokensFrom p pieces).map Token.position).Pairwise (· < ·) := by
  induction pieces generalizing p with
  | nil => simp [tokensFrom]
  | cons x rest ih =>
    obtain ⟨hbounds, hpairwise⟩ := ih (p + x.chars.length)
    have hpos : 0 < x.chars.length := by
      have := List.length_pos_iff.mpr x.lexeme.chars_ne_nil
      rw [chars, List.length_append]
      omega
    have hlength := length_spelled_cons x rest
    constructor
    · intro t ht
      rcases List.mem_cons.mp ht with rfl | ht
      · simp only [Lexeme.token]
        omega
      · have := hbounds t ht
        omega
    · rw [tokensFrom, List.map_cons, List.pairwise_cons]
      refine ⟨?_, hpairwise⟩
      intro q hq
      obtain ⟨t, ht, rfl⟩ := List.mem_map.mp hq
      have := hbounds t ht
      simp only [Lexeme.token]
      omega

end Piece

namespace Division

variable {p : Nat} {cs : List Char} {tokens : List Token}

theorem lexes_text (p : Nat) (x : Division) : Token.Lexes p x.text (x.tokensAt p) := by
  have hpieces := Piece.lexes_spelled (p := p + x.lead.length) x.apart
  have hwhole := Piece.lexes_blank x.blank hpieces
  rwa [Nat.add_assoc, ← List.length_append] at hwhole

theorem body_tokens (x : Division) :
    Token.body x.tokens = Piece.tokensFrom x.lead.length x.pieces := by
  have h : x.tokens = Token.body x.tokens ++ _ := (x.lexes_text 0).eq_body_append
  rw [tokens, tokensAt, Nat.zero_add] at h
  rw [tokens, tokensAt, Nat.zero_add]
  exact (List.append_cancel_right h).symm

def consBlank (c : Char) (hc : c ∈ blanks) (rest : Division) : Division where
  lead := c :: rest.lead
  pieces := rest.pieces
  blank := by simpa [hc] using rest.blank
  apart := rest.apart

theorem tokensAt_consBlank {c : Char} (hc : c ∈ blanks) (rest : Division) :
    (consBlank c hc rest).tokensAt p = rest.tokensAt (p + 1) := by
  have hlead : p + (c :: rest.lead).length = p + 1 + rest.lead.length := by
    rw [List.length_cons]
    omega
  have htext : p + (c :: rest.text).length = p + 1 + rest.text.length := by
    rw [List.length_cons]
    omega
  change Piece.tokensFrom (p + (c :: rest.lead).length) rest.pieces ++
    [⟨.finish, (p + (c :: rest.text).length : Nat), ""⟩] = _
  rw [hlead, htext]
  rfl

def consLexeme (x : Lexeme) (rest : Division)
    (h : x.IsWord → ∀ c ∈ rest.text.head?, ¬isLetter c = true) : Division where
  lead := []
  pieces := ⟨x, rest.lead, rest.blank⟩ :: rest.pieces
  blank := by simp
  apart := by
    refine List.isChain_cons.mpr ⟨fun y hy hword => ?_, rest.apart⟩
    exact (Piece.not_isLetter_head_iff rest.blank).mp (h hword) y hy

theorem text_consLexeme (x : Lexeme) (rest : Division)
    (h : x.IsWord → ∀ c ∈ rest.text.head?, ¬isLetter c = true) :
    (consLexeme x rest h).text = x.chars ++ rest.text := Piece.spelled_cons _ _

theorem tokensAt_consLexeme (x : Lexeme) (rest : Division)
    (h : x.IsWord → ∀ c ∈ rest.text.head?, ¬isLetter c = true) :
    (consLexeme x rest h).tokensAt p = x.token p :: rest.tokensAt (p + x.chars.length) := by
  rw [tokensAt, text_consLexeme, List.length_append]
  simp [tokensAt, consLexeme, Piece.tokensFrom, Piece.chars, Nat.add_assoc]

theorem exists_of_lexes (h : Token.Lexes p cs tokens) :
    ∃ x : Division, x.text = cs ∧ x.tokensAt p = tokens := by
  induction h with
  | finish p => exact ⟨⟨[], [], by simp, .nil⟩, rfl, rfl⟩
  | space hc h ih =>
    obtain ⟨x, rfl, rfl⟩ := ih
    exact ⟨consBlank _ (isSpace_iff_mem_blanks.mp hc) x, rfl, tokensAt_consBlank _ x⟩
  | mark hc h ih =>
    obtain ⟨x, rfl, rfl⟩ := ih
    obtain ⟨y, hword, hchars, rfl, htext⟩ := Lexeme.exists_of_mark hc
    have hrest : y.IsWord → ∀ c ∈ x.text.head?, ¬isLetter c = true := fun hy => absurd hy hword
    refine ⟨consLexeme y x hrest, ?_, ?_⟩
    · rw [text_consLexeme, hchars]
      rfl
    · rw [tokensAt_consLexeme, hchars, Lexeme.token, htext]
      rfl
  | word hne hword hrest htoken h ih =>
    obtain ⟨x, rfl, rfl⟩ := ih
    obtain ⟨y, -, rfl, rfl⟩ := Lexeme.exists_of_word hne hword htoken
    exact ⟨consLexeme y x fun _ => hrest, text_consLexeme y x _, tokensAt_consLexeme y x _⟩

theorem unique {x y : Division} (h : x.text = y.text) : x = y := by
  obtain ⟨hlead, hspelled⟩ := Piece.gap_unique x.blank y.blank h
  have hpieces := Piece.pieces_unique x.apart y.apart hspelled
  obtain ⟨lead, pieces, hblank, hapart⟩ := x
  obtain ⟨lead', pieces', hblank', hapart'⟩ := y
  obtain rfl : lead = lead' := hlead
  obtain rfl : pieces = pieces' := hpieces
  rfl

theorem positions_increasing (x : Division) : (x.tokens.map Token.position).Pairwise (· < ·) := by
  obtain ⟨hbounds, hpairwise⟩ := Piece.positions_tokensFrom (0 + x.lead.length) x.pieces
  rw [tokens, tokensAt, List.map_append, List.pairwise_append]
  refine ⟨hpairwise, List.pairwise_singleton _ _, ?_⟩
  intro q hq r hr
  obtain ⟨t, ht, rfl⟩ := List.mem_map.mp hq
  obtain rfl := List.mem_singleton.mp hr
  have hlast := (hbounds t ht).2
  rwa [Nat.add_assoc, ← List.length_append] at hlast

theorem lex_text {source : String} {x : Division} (h : x.text = source.toList) :
    Token.lex source = .ok x.tokens := by
  rw [Token.lex, ← h]
  exact Token.lexFrom_of_lexes (x.lexes_text 0)

theorem exists_of_lex {source : String} (h : Token.lex source = .ok tokens) :
    ∃ x : Division, x.text = source.toList ∧ x.tokens = tokens :=
  exists_of_lexes (Token.lexes_of_lexFrom h)

/-- Lexing returns tokens exactly for the texts that have a division, and they are the tokens of its
lexemes with the end mark after them. No text has two divisions, and the tokens of a division stand
one after the other. -/
theorem lex_eq_ok_iff (source : String) :
    (∀ tokens, Token.lex source = .ok tokens ↔
      ∃ x : Division, x.text = source.toList ∧ x.tokens = tokens) ∧
    (∀ x y : Division, x.text = source.toList → y.text = source.toList → x = y) ∧
    ∀ x : Division, x.text = source.toList → (x.tokens.map Token.position).Pairwise (· < ·) := by
  refine ⟨fun tokens => ⟨exists_of_lex, ?_⟩, fun x y hx hy => unique (hx.trans hy.symm),
    fun x _ => x.positions_increasing⟩
  rintro ⟨x, htext, rfl⟩
  exact lex_text htext

end Division

end BoolExpr
