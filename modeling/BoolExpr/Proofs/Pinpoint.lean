import BoolExpr.Proofs.Division
import BoolExpr.Proofs.Evaluation
import BoolExpr.Proofs.LeftmostError
import BoolExpr.Proofs.Matching
import BoolExpr.Proofs.Stop
import Mathlib.Data.List.Induction

/-!
Where failures point. A lexical error points at a character that it names, and a syntax error at a
token, an operator or a parenthesis of the text: the one that it names, standing in the way that
makes it a failure. The main statement says so for each kind of failure, for every text and every
engine; places count the characters of the text as it was given.
-/
namespace BoolExpr

open Token (isLetter isSpace)

def Lexeme.StandsAt (x : Lexeme) (source : String) (p : Nat) : Prop :=
  ∃ tokens, Token.lex source = .ok tokens ∧ x.token p ∈ tokens ∧ x.chars <+: source.toList.drop p

/-- The word of the operator stands whole at the place `p`, and a closing parenthesis or nothing at
all comes after it, white space apart. -/
def Op.LacksOperand (op : Op) (source : String) (p : Nat) : Prop :=
  ∃ front back, source.toList = front ++ (op.word.toList ++ back) ∧ front.length = p ∧
    (∀ c ∈ front.getLast?, ¬isLetter c = true) ∧ (∀ c ∈ back.head?, ¬isLetter c = true) ∧
    ∀ c ∈ (back.dropWhile isSpace).head?, c = ')'

/-- What a failure with a position says about the text at that place, when `limit` is the number of
parentheses that may be open. -/
def Pinpoints (limit : Nat) (source : String) (p : Nat) : ExprError → Prop
  | .lexical e => p < source.length ∧
      ∃ c, source.toList[p]? = some c ∧ e.character = String.singleton c
  | .malformed (.emptyExpression _) => (∀ c ∈ source.toList, c ∈ blanks) ∧ p = source.length
  | .malformed (.unexpectedToken _ found _) | .malformed (.trailingInput _ found) =>
      (∃ x : Lexeme, x.StandsAt source p ∧ found = x.text) ∧ found ≠ "end of input"
  | .malformed (.missingOperand _ operator) =>
      ∃ op : Op, operator = op.word ∧ op.LacksOperand source p
  | .malformed (.unmatchedParen _ paren) =>
      (paren = ")" ∧ source.toList[p]? = some ')' ∧
        p ∈ (Matching.ofText source.toList).stray ∧
          ∀ q ∈ (Matching.ofText source.toList).stray, p ≤ q) ∨
      (paren = "(" ∧ source.toList[p]? = some '(' ∧
        p ∈ (Matching.ofText source.toList).opened ∧
          ∀ q ∈ (Matching.ofText source.toList).opened, q ≤ p)
  | .malformed (.nestingTooDeep _ _) => source.toList[p]? = some '(' ∧
      (Matching.ofText (source.toList.take p)).opened.length = limit
  | _ => False

namespace Piece

variable {p : Nat} {x : Piece} {m : Matching} {lead : List Char} {pieces front back : List Piece}

/-- A token among those of pieces is the token of one of them. -/
theorem exists_piece {before after : List Token} {t : Token}
    (h : tokensFrom p pieces = before ++ t :: after) :
    ∃ front x back, pieces = front ++ x :: back ∧ before = tokensFrom p front ∧
      t = x.lexeme.token (p + (spelled front).length) := by
  induction before generalizing p pieces with
  | nil =>
    cases pieces with
    | nil => simp [tokensFrom] at h
    | cons x rest =>
      obtain ⟨hx, -⟩ := List.cons.inj h
      exact ⟨[], x, rest, rfl, rfl, hx.symm⟩
  | cons u before ih =>
    cases pieces with
    | nil => simp [tokensFrom] at h
    | cons x rest =>
      obtain ⟨hx, hrest⟩ := List.cons.inj h
      obtain ⟨front, y, back, rfl, rfl, ht⟩ := ih hrest
      refine ⟨x :: front, y, back, rfl, by rw [tokensFrom, hx], ?_⟩
      rw [ht, Nat.add_assoc, length_spelled_cons]

/-- Only parentheses matter to the matching. -/
theorem runFrom_chars (p : Nat) (m : Matching) (x : Piece) :
    Matching.runFrom p m x.chars =
      match x.lexeme with
      | .opening => m.step p '('
      | .closing => m.step p ')'
      | _ => m := by
  have hgap : ∀ q m', Matching.runFrom q m' x.gap = m' := fun q m' =>
    Matching.runFrom_of_no_bracket fun c hc =>
      Token.ofChar?_of_isSpace (isSpace_iff_mem_blanks.mpr (x.blank c hc))
  have hword : x.lexeme.IsWord → Matching.runFrom p m x.lexeme.chars = m := fun hx =>
    Matching.runFrom_of_no_bracket fun c hc =>
      Token.ofChar?_of_isLetter (Lexeme.isLetter_of_mem hx c hc)
  rw [chars, Matching.runFrom_append, hgap]
  cases hx : x.lexeme with
  | literal value => cases value <;> rfl
  | opening => rfl
  | closing => rfl
  | operator op => simpa only [hx] using hword (by rw [hx]; trivial)
  | var letters hletters => simpa only [hx] using hword (by rw [hx]; trivial)

theorem ofText_concat (lead : List Char) (front : List Piece) (x : Piece) :
    Matching.ofText (lead ++ spelled (front ++ [x])) =
      match x.lexeme with
      | .opening =>
        (Matching.ofText (lead ++ spelled front)).step (lead ++ spelled front).length '('
      | .closing =>
        (Matching.ofText (lead ++ spelled front)).step (lead ++ spelled front).length ')'
      | _ => Matching.ofText (lead ++ spelled front) := by
  rw [spelled_append, spelled_singleton, ← List.append_assoc, Matching.ofText_append, runFrom_chars]

end Piece

namespace Scan

open Piece

/-- The state of a scan that went over the tokens of the pieces `front`, which stand after
`lead`. -/
structure Reached (limit : Nat) (lead : List Char) (front : List Piece) (s : State) : Prop where
  opened : s.opened.map Token.position =
    (Matching.ofText (lead ++ spelled front)).opened.map fun q : Nat => (q : Int)
  stray : (Matching.ofText (lead ++ spelled front)).stray = []
  bounded : s.opened.length ≤ limit
  fresh : s.mode = .due none → s.opened = [] → front = []
  operator : ∀ t, s.mode = .due (some t) → ∃ before x op, front = before ++ [x] ∧
    x.lexeme = .operator op ∧ t = x.lexeme.token (lead ++ spelled before).length

variable {limit : Nat} {lead : List Char} {front : List Piece} {s s' : State} {x : Piece}

theorem Reached.start (limit : Nat) (hlead : ∀ c ∈ lead, c ∈ blanks) :
    Reached limit lead [] .start := by
  have hnone : Matching.ofText (lead ++ spelled []) = ⟨[], []⟩ := by
    rw [spelled, List.flatMap_nil, List.append_nil, Matching.ofText]
    exact Matching.runFrom_of_no_bracket fun c hc =>
      Token.ofChar?_of_isSpace (isSpace_iff_mem_blanks.mpr (hlead c hc))
  constructor
  · rw [hnone]
    rfl
  · rw [hnone]
  · exact Nat.zero_le limit
  · exact fun _ _ => rfl
  · intro t ht
    cases ht

theorem Reached.after_operand (h : Reached limit lead front s)
    (hx : (∃ value, x.lexeme.kind = .literal value) ∨ x.lexeme.kind = .var) :
    Reached limit lead (front ++ [x]) ⟨.complete, s.opened⟩ := by
  have hsame : Matching.ofText (lead ++ spelled (front ++ [x])) =
      Matching.ofText (lead ++ spelled front) := by
    rw [ofText_concat]
    cases hlexeme : x.lexeme <;> simp_all [Lexeme.kind]
  constructor
  · rw [hsame]
    exact h.opened
  · rw [hsame]
    exact h.stray
  · exact h.bounded
  · intro hmode
    cases hmode
  · intro t ht
    cases ht

theorem Reached.after_operator (h : Reached limit lead front s) {op : Op}
    (hx : x.lexeme = .operator op) :
    Reached limit lead (front ++ [x])
      ⟨.due (some (x.lexeme.token (lead ++ spelled front).length)), s.opened⟩ := by
  have hsame : Matching.ofText (lead ++ spelled (front ++ [x])) =
      Matching.ofText (lead ++ spelled front) := by
    rw [ofText_concat, hx]
  constructor
  · rw [hsame]
    exact h.opened
  · rw [hsame]
    exact h.stray
  · exact h.bounded
  · intro hmode
    cases hmode
  · intro t ht
    cases ht
    exact ⟨front, x, op, rfl, hx, rfl⟩

theorem Reached.after_opening (h : Reached limit lead front s) (hx : x.lexeme = .opening)
    (hroom : s.opened.length < limit) :
    Reached limit lead (front ++ [x])
      ⟨.due none, x.lexeme.token (lead ++ spelled front).length :: s.opened⟩ := by
  have hmatching := ofText_concat lead front x
  simp only [hx, Matching.step_opening] at hmatching
  constructor
  · rw [hmatching, List.map_cons, List.map_cons, h.opened]
    rfl
  · rw [hmatching]
    exact h.stray
  · exact hroom
  · intro _ hnil
    cases hnil
  · intro t ht
    cases ht

theorem Reached.after_closing (h : Reached limit lead front s) (hx : x.lexeme = .closing)
    {paren : Token} {outer : List Token} (hopened : s.opened = paren :: outer) :
    Reached limit lead (front ++ [x]) ⟨.complete, outer⟩ := by
  have hplaces := h.opened
  have hbounded := h.bounded
  rw [hopened, List.map_cons] at hplaces
  rw [hopened, List.length_cons] at hbounded
  obtain ⟨q, more, hq, -, hmore⟩ := List.map_eq_cons_iff.mp hplaces.symm
  have hmatching := ofText_concat lead front x
  simp only [hx, Matching.step_closing_cons hq] at hmatching
  constructor
  · rw [hmatching]
    exact hmore.symm
  · rw [hmatching]
    exact h.stray
  · exact Nat.le_of_succ_le hbounded
  · intro hmode
    cases hmode
  · intro t ht
    cases ht

theorem Reached.step (h : Reached limit lead front s)
    (hstep : s.step limit (x.lexeme.token (lead ++ spelled front).length) = .ok s') :
    Reached limit lead (front ++ [x]) s' := by
  rcases State.step_eq_ok hstep with ⟨after, -, hkind, rfl⟩ | ⟨after, -, hkind, hroom, rfl⟩ |
    ⟨-, ⟨op, hkind⟩, rfl⟩ | ⟨-, hkind, paren, outer, hopened, rfl⟩
  · exact h.after_operand hkind
  · exact h.after_opening (Lexeme.eq_opening_of_kind hkind) hroom
  · exact h.after_operator (Lexeme.eq_operator_of_kind hkind)
  · exact h.after_closing (Lexeme.eq_closing_of_kind hkind) hopened

/-- Whatever pieces a scan goes through, it reaches the state that their text determines. -/
theorem reached (hlead : ∀ c ∈ lead, c ∈ blanks)
    (h : (tokensFrom lead.length front).foldlM (State.step limit) .start = .ok s) :
    Reached limit lead front s := by
  -- from the end: the last piece is one more step from the state that the pieces before it reach
  induction front using List.reverseRecOn generalizing s with
  | nil =>
    obtain rfl : State.start = s := Except.ok.inj h
    exact .start limit hlead
  | append_singleton front x ih =>
    rw [tokensFrom_append, List.foldlM_append, Outcome.bind_eq_ok] at h
    obtain ⟨before, hbefore, hlast⟩ := h
    rw [← List.length_append, tokensFrom, tokensFrom, List.foldlM_cons, Outcome.bind_eq_ok] at hlast
    obtain ⟨after, hstep, hafter⟩ := hlast
    obtain rfl : after = s := Except.ok.inj hafter
    exact (ih hbefore).step hstep

end Scan

def LexError.PointsInto (e : LexError) (p : Nat) (cs : List Char) : Prop :=
  ∃ front c back, cs = front ++ c :: back ∧ e.position = (p + front.length : Nat) ∧
    e.character = String.singleton c

theorem Token.lexFrom_error {p : Nat} {cs : List Char} {e : LexError}
    (h : lexFrom p cs = .error e) : e.PointsInto p cs := by
  obtain ⟨front, c, back, hcs, hposition, hcharacter, -⟩ := reports_of_lexFrom h
  exact ⟨front, c, back, hcs, hposition, hcharacter⟩

namespace Division

open Piece

variable {x : Division} {front back : List Piece} {y : Piece} {source : String}

theorem text_split (h : x.pieces = front ++ y :: back) :
    x.text = (x.lead ++ spelled front) ++ (y.lexeme.chars ++ (y.gap ++ spelled back)) := by
  rw [text, h, spelled_append, spelled_cons, List.append_assoc]

theorem tokens_eq (x : Division) :
    x.tokens = tokensFrom x.lead.length x.pieces ++ [⟨.finish, x.text.length, ""⟩] := by
  rw [tokens, tokensAt, Nat.zero_add, Nat.zero_add]

theorem standsAt (htext : x.text = source.toList) (h : x.pieces = front ++ y :: back) :
    y.lexeme.StandsAt source (x.lead ++ spelled front).length := by
  refine ⟨x.tokens, lex_text htext, ?_, ?_⟩
  · rw [tokens_eq, h, tokensFrom_append, ← List.length_append, tokensFrom]
    simp
  · rw [← htext, text_split h, List.drop_left]
    exact List.prefix_append _ _

/-- No letter stands directly before a word. -/
theorem not_isLetter_getLast (h : x.pieces = front ++ y :: back) (hy : y.lexeme.IsWord) :
    ∀ c ∈ (x.lead ++ spelled front).getLast?, ¬isLetter c = true := by
  intro c hc
  rcases front.eq_nil_or_concat' with rfl | ⟨before, z, rfl⟩
  · rw [spelled, List.flatMap_nil, List.append_nil] at hc
    exact not_isLetter_of_mem_blanks (x.blank c (List.mem_of_getLast? hc))
  · have hchain := x.apart
    rw [h, List.append_assoc] at hchain
    have hapart : Apart z y := (List.isChain_append_cons_cons.mp hchain).2.1
    have hz : z.chars ≠ [] := List.append_ne_nil_of_left_ne_nil z.lexeme.chars_ne_nil z.gap
    rw [spelled_append, spelled_singleton, ← List.append_assoc,
      List.getLast?_append_of_ne_nil _ hz] at hc
    by_cases hgap : z.gap = []
    · have hword : ¬z.lexeme.IsWord := fun hz => hapart hz hy hgap
      obtain ⟨d, hd, hmark, -⟩ := Lexeme.exists_mark hword
      rw [chars, hgap, hd] at hc
      obtain rfl : d = c := Option.some.inj hc
      exact Token.not_isLetter_of_mark hmark
    · rw [chars, List.getLast?_append_of_ne_nil _ hgap] at hc
      exact not_isLetter_of_mem_blanks (z.blank c (List.mem_of_getLast? hc))

/-- An operator that is followed by a closing parenthesis, or by nothing, lacks its operand. -/
theorem lacksOperand (htext : x.text = source.toList) (h : x.pieces = front ++ y :: back) {op : Op}
    (hy : y.lexeme = .operator op) (hback : ∀ z ∈ back.head?, z.lexeme = .closing) :
    op.LacksOperand source (x.lead ++ spelled front).length := by
  have hword : y.lexeme.IsWord := by
    rw [hy]
    trivial
  refine ⟨x.lead ++ spelled front, y.gap ++ spelled back, ?_, rfl, not_isLetter_getLast h hword,
    ?_, ?_⟩
  · rw [← htext, text_split h, hy]
    rfl
  · rw [not_isLetter_head_iff y.blank]
    intro z hz hzword
    rw [hback z hz] at hzword
    exact hzword.elim
  · have hdrop : (y.gap ++ spelled back).dropWhile isSpace = spelled back := by
      rw [List.dropWhile_append_of_pos fun c hc => isSpace_iff_mem_blanks.mpr (y.blank c hc)]
      cases hhead : spelled back with
      | nil => rfl
      | cons d more =>
        exact List.dropWhile_cons_of_neg (not_isSpace_head back d (by rw [hhead]; rfl))
    rw [hdrop]
    intro c hc
    cases back with
    | nil => simp [spelled] at hc
    | cons z more =>
      rw [head?_spelled_cons, hback z rfl] at hc
      exact (Option.some.inj hc).symm

end Division

namespace Division

open Piece Scan

variable {x : Division} {front back : List Piece} {y : Piece} {source : String} {limit : Nat}
  {s : State} {e : SyntaxError}

theorem getElem?_of_split (htext : x.text = source.toList) (h : x.pieces = front ++ y :: back)
    {c : Char}
    (hy : y.lexeme.chars = [c]) : source.toList[(x.lead ++ spelled front).length]? = some c := by
  rw [← htext, text_split h, hy, List.getElem?_append_right (Nat.le_refl _), Nat.sub_self]
  rfl

/-- A token that names itself in a failure. -/
theorem pinpoints_found (htext : x.text = source.toList) (h : x.pieces = front ++ y :: back) :
    (∃ z : Lexeme, z.StandsAt source (x.lead ++ spelled front).length ∧ y.lexeme.text = z.text) ∧
      y.lexeme.text ≠ "end of input" := by
  refine ⟨⟨y.lexeme, standsAt htext h, rfl⟩, ?_⟩
  intro hfound
  have hspace := y.lexeme.space_not_mem_text
  rw [hfound] at hspace
  exact hspace (by decide)

/-- The operator before which a scan stands, when no operand follows. -/
theorem pinpoints_operator (htext : x.text = source.toList) (h : x.pieces = front ++ back)
    (hreached : Reached limit x.lead front s) {t : Token} (hmode : s.mode = .due (some t))
    (hback : ∀ z ∈ back.head?, z.lexeme = .closing) :
    ∃ p : Nat, t.position = p ∧ ∃ op : Op, t.text = op.word ∧ op.LacksOperand source p := by
  obtain ⟨before, z, op, rfl, hz, rfl⟩ := hreached.operator t hmode
  rw [List.append_assoc] at h
  refine ⟨_, rfl, op, ?_, lacksOperand htext h hz hback⟩
  rw [Lexeme.token, hz]
  cases op <;> rfl

/-- Where a scan stops at a token. -/
theorem pinpoints_of_step (htext : x.text = source.toList) (h : x.pieces = front ++ y :: back)
    (hreached : Reached limit x.lead front s)
    (hstep : s.step limit (y.lexeme.token (x.lead ++ spelled front).length) = .error e) :
    ∃ p : Nat, e.position = p ∧ Pinpoints limit source p (.malformed e) := by
  rcases State.step_eq_error hstep with ⟨-, hkind, hfull, rfl⟩ | ⟨t, hmode, hkind, rfl⟩ |
    ⟨hopened, hkind, rfl⟩ | ⟨wanted, rfl⟩ | rfl
  · have hy := Lexeme.eq_opening_of_kind hkind
    refine ⟨_, rfl, getElem?_of_split htext h (by rw [hy]; rfl), ?_⟩
    -- the scan never holds more than `limit` parentheses open, so a full stack holds that many
    have hopened := congrArg List.length hreached.opened
    rw [List.length_map, List.length_map] at hopened
    have hbounded := hreached.bounded
    rw [← htext, text_split h, List.take_left, ← hopened]
    omega
  · have hy := Lexeme.eq_closing_of_kind hkind
    refine pinpoints_operator htext h hreached hmode ?_
    intro z hz
    obtain rfl : y = z := Option.some.inj hz
    exact hy
  · have hy := Lexeme.eq_closing_of_kind hkind
    refine ⟨_, rfl, Or.inl ⟨rfl, getElem?_of_split htext h (by rw [hy]; rfl), ?_⟩⟩
    have hplaces := hreached.opened
    rw [hopened] at hplaces
    have hnone := List.map_eq_nil_iff.mp hplaces.symm
    rw [← htext, text_split h, hy]
    exact Matching.first_stray hnone hreached.stray
  · exact ⟨_, rfl, pinpoints_found htext h⟩
  · exact ⟨_, rfl, pinpoints_found htext h⟩

/-- Where a scan stops after all tokens. -/
theorem pinpoints_of_finish (htext : x.text = source.toList)
    (hreached : Reached limit x.lead x.pieces s)
    (hfinish : s.finish (x.text.length : Nat) = .error e) :
    ∃ p : Nat, e.position = p ∧ Pinpoints limit source p (.malformed e) := by
  rcases State.finish_eq_error hfinish with ⟨t, hmode, rfl⟩ | ⟨hmode, hopened, rfl⟩ |
    ⟨paren, outer, hopened, rfl⟩
  · exact pinpoints_operator htext (List.append_nil _).symm hreached hmode (by simp)
  · have hnone := hreached.fresh hmode hopened
    refine ⟨x.text.length, rfl, ?_, ?_⟩
    · rw [← htext, text, hnone, spelled, List.flatMap_nil, List.append_nil]
      exact x.blank
    · rw [htext, String.length_toList]
  · have hplaces := hreached.opened
    rw [hopened, List.map_cons] at hplaces
    obtain ⟨q, more, hq, hposition, -⟩ := List.map_eq_cons_iff.mp hplaces.symm
    change (Matching.ofText x.text).opened = q :: more at hq
    rw [htext] at hq
    obtain ⟨hmem, hlast⟩ := Matching.last_opened hq
    have hplace := (Matching.holds_ofText source.toList).opened_at q hmem
    exact ⟨q, hposition.symm, Or.inr ⟨rfl, hplace, hmem, hlast⟩⟩

theorem pinpoints_of_ofTokens {limit : NestingLimit} (htext : x.text = source.toList)
    (h : Expr.ofTokens limit x.tokens = .error e) :
    ∃ p : Nat, e.position = p ∧ Pinpoints limit.value source p (.malformed e) := by
  have hclear := tokensFrom_ne_finish x.lead.length x.pieces
  rw [tokens_eq, Expr.ofTokens_eq_error_iff, Token.endPosition_append_finish hclear rfl,
    Token.body_append_finish hclear rfl] at h
  rcases conclude_eq_error h with ⟨before, t, after, s, hsplit, hrun, hstop⟩ | ⟨s, hrun, hstop⟩
  · obtain ⟨front, y, back, hpieces, rfl, rfl⟩ := exists_piece hsplit
    rw [← List.length_append] at hstop
    exact pinpoints_of_step htext hpieces (reached x.blank hrun) hstop
  · exact pinpoints_of_finish htext (reached x.blank hrun) hstop

end Division

namespace Engine

/-- Whatever an engine says against a text, a position in it is the place in the text of what the
failure names, standing there in the way that makes it a failure. -/
theorem parse_error_pinpoints {engine : Engine} {source : String} {e : ExprError} {position : Int}
    (h : engine.parse source = .error e ∨ engine.validate source = .invalid e)
    (hposition : e.position? = some position) :
    ∃ p : Nat, position = p ∧ Pinpoints engine.nesting.value source p e := by
  have hparse : engine.parse source = .error e := by
    rcases h with h | h
    · exact h
    · exact validate_eq_invalid_iff.mp h
  rcases parse_eq_error hparse with ⟨length, bound, rfl⟩ | ⟨e', hlex, rfl⟩ |
    ⟨tokens, e', hlex, hread, rfl⟩
  · cases hposition
  · obtain rfl : e'.position = position := Option.some.inj hposition
    obtain ⟨front, c, back, hsplit, hplace, hcharacter⟩ := Token.lexFrom_error hlex
    rw [Nat.zero_add] at hplace
    refine ⟨front.length, hplace, ?_, c, ?_, hcharacter⟩
    · rw [← String.length_toList, hsplit, List.length_append, List.length_cons]
      omega
    · rw [hsplit, List.getElem?_append_right (Nat.le_refl _), Nat.sub_self]
      rfl
  · obtain rfl : e'.position = position := Option.some.inj hposition
    obtain ⟨x, htext, rfl⟩ := Division.exists_of_lex hlex
    exact Division.pinpoints_of_ofTokens htext hread

/-- At the end of a text the operator is blamed, not the parenthesis that is open too. -/
theorem parse_lone_operator_pinpoints :
    standard.parse "(a OR " = .error (.malformed (.missingOperand 3 "OR")) ∧
      ∃ p : Nat, (3 : Int) = p ∧ Pinpoints standard.nesting.value "(a OR " p
        (.malformed (.missingOperand 3 "OR")) := by
  have h : standard.parse "(a OR " = .error (.malformed (.missingOperand 3 "OR")) := by
    with_unfolding_all rfl
  exact ⟨h, parse_error_pinpoints (Or.inl h) rfl⟩

end Engine

end BoolExpr
