import Mathlib.Data.List.Basic
import BoolExpr.Proofs.Cursor
import BoolExpr.Proofs.Evaluation
import BoolExpr.Proofs.Lexing
import BoolExpr.Proofs.Spelling

/-!
The whole engine with its lookups in the open. Text is read by place, the kinds of digits, words and
parentheses are entries of tables, tokens are read by a cursor, and the values of variables are
looked up by name; each lookup may fail. The main statement is that none does, for any text, any
tokens and any limits that are accepted: what can be seen from outside is a tree, a value, or one of
the failures that have a name.
-/
namespace BoolExpr

def SyntaxError.OfTokens : SyntaxError → Prop
  | .emptyExpression _ => True
  | .unexpectedToken _ _ _ => True
  | .missingOperand _ _ => True
  | .unmatchedParen _ _ => True
  | .trailingInput _ _ => True
  | .nestingTooDeep _ _ => True
  | .stated _ _ => False

def ExprError.OfText : ExprError → Prop
  | .lexical _ => True
  | .tooLong _ _ => True
  | .malformed e => e.OfTokens
  | .unboundVariables _ => False
  | .invalidValue _ _ => False
  | .stated _ => False

theorem Expr.ofTokens_error {limit : NestingLimit} {tokens : List Token} {e : SyntaxError}
    (h : Expr.ofTokens limit tokens = .error e) : e.OfTokens := by
  rcases Scan.conclude_eq_error (Expr.ofTokens_eq_error_iff.mp h) with
    ⟨_, _, _, _, -, -, hstep⟩ | ⟨_, -, hfinish⟩
  · rcases Scan.State.step_eq_error hstep with
      ⟨-, -, -, rfl⟩ | ⟨op, -, -, rfl⟩ | ⟨-, -, rfl⟩ | ⟨wanted, rfl⟩ | rfl <;> exact trivial
  · rcases Scan.State.finish_eq_error hfinish with
      ⟨op, -, rfl⟩ | ⟨-, -, rfl⟩ | ⟨paren, outer, -, rfl⟩ <;> exact trivial

theorem Engine.parse_error {engine : Engine} {source : String} {e : ExprError}
    (h : engine.parse source = .error e) : e.OfText := by
  rcases Engine.parse_eq_error h with ⟨_, _, rfl⟩ | ⟨_, -, rfl⟩ | ⟨_, _, -, hread, rfl⟩
  · exact trivial
  · exact trivial
  · exact Expr.ofTokens_error hread

namespace Lookups

open Token

/-- The entry of a table for a key that has to be there. -/
def entry {α : Type} (table : List (String × α)) (key : String) : Except Halt α :=
  match table.lookup key with
  | some value => .ok value
  | none => .error (.fault (.noEntry key))

def charAt (cs : List Char) (place : Nat) : Except Halt Char :=
  match cs[place]? with
  | some c => .ok c
  | none => .error (.fault (.pastEnd place))

def operatorTable : List (String × Kind) := [("AND", .operator .and), ("OR", .operator .or)]

def literalTable : List (String × Kind) := [("1", .literal true), ("0", .literal false)]

def parenTable : List (String × Kind) := [("(", .opening), (")", .closing)]

inductive Group where
  | blank
  | literal
  | word
  | paren

/-- The piece that a text begins with: as much white space as there is, a digit, as many letters as
there are, or a parenthesis. -/
def firstPiece? : List Char → Option (Group × List Char)
  | [] => none
  | c :: rest =>
    if isSpace c then some (.blank, c :: rest.takeWhile isSpace)
    else if c = '0' ∨ c = '1' then some (.literal, [c])
    else if isLetter c then some (.word, c :: rest.takeWhile isLetter)
    else if c = '(' ∨ c = ')' then some (.paren, [c])
    else none

def wordToken (place : Nat) (word : List Char) : Except Halt Token :=
  let lowered : Token := ⟨.var, place, String.ofList (word.map Char.toLower)⟩
  if word.all isCapital then
    match operatorTable.lookup (String.ofList word) with
    | some kind => .ok ⟨kind, place, String.ofList word⟩
    | none =>
      if 1 < word.length then do
        let first ← charAt word 0
        .error (.lexical ⟨place, String.singleton first, .unknownWord (String.ofList word)⟩)
      else .ok lowered
  else .ok lowered

/-- The tokens of the text `cs` from a place on, in at most as many turns as are given. -/
def lexAt (cs : List Char) : (turns place : Nat) → Except Halt (List Token)
  | 0, _ => .error (.fault .noTurnLeft)
  | turns + 1, place =>
    if place < cs.length then
      match firstPiece? (cs.drop place) with
      | none => do
        let c ← charAt cs place
        .error (.lexical ⟨place, String.singleton c, .unexpectedCharacter⟩)
      | some (.blank, piece) => lexAt cs turns (place + piece.length)
      | some (.literal, piece) => do
        let kind ← entry literalTable (String.ofList piece)
        let tokens ← lexAt cs turns (place + piece.length)
        return ⟨kind, place, String.ofList piece⟩ :: tokens
      | some (.word, piece) => do
        let token ← wordToken place piece
        let tokens ← lexAt cs turns (place + piece.length)
        return token :: tokens
      | some (.paren, piece) => do
        let kind ← entry parenTable (String.ofList piece)
        let tokens ← lexAt cs turns (place + piece.length)
        return ⟨kind, place, String.ofList piece⟩ :: tokens
    else .ok [⟨.finish, cs.length, ""⟩]

def lex (source : String) : Except Halt (List Token) :=
  lexAt source.toList (source.length + 1) 0

/-- The expression that tokens are, with four calls for each parenthesis that may be open and five
more. -/
def readTokens (maxDepth : Int) (tokens : List Token) : Except Halt Expr := do
  let limit ← (NestingLimit.ofInt "max_depth" maxDepth).mapError fun e => Halt.fault (.badLimit e)
  Cursor.parse (Token.marked tokens) limit.value (4 * limit.value + 5)

def parse (maxLength maxDepth : Int) (source : String) : Except Halt Expr :=
  if maxLength ≠ 0 ∧ maxLength < source.length then
    .error (.refused (.tooLong source.length maxLength))
  else do
    let tokens ← lex source
    readTokens maxDepth tokens

def validate (maxLength maxDepth : Int) (source : String) : Except Halt Verdict :=
  match parse maxLength maxDepth source with
  | .ok _ => .ok .valid
  | .error (.refused e) => .ok (.invalid e)
  | .error (.fault f) => .error (.fault f)

def valuesFor (e : Expr) (b : Bindings) : Except Halt (List (String × Bool)) :=
  if (e.missing b).isEmpty then
    e.vars.toList.mapM fun name => do
      let value ← entry b.entries name
      return (name, value)
  else .error (.refused (.unboundVariables (e.missing b)))

def foldHalt : Expr.FoldError → Halt
  | .unknownName name => .fault (.noEntry name)
  | .missingOperand => .fault .missingOperand

def evaluateTree (e : Expr) (b : Bindings) : Except Halt Bool := do
  let values ← valuesFor e b
  (e.fold fun name => values.lookup name).mapError foldHalt

def evaluate (maxLength maxDepth : Int) (source : String) (b : Bindings) : Except Halt Bool := do
  let e ← parse maxLength maxDepth source
  evaluateTree e b

variable {cs piece rest word : List Char} {place turns : Nat} {source : String}
  {maxLength maxDepth : Int}

theorem entry_of_lookup {α : Type} {table : List (String × α)} {key : String} {value : α}
    (h : table.lookup key = some value) : entry table key = .ok value := by
  rw [entry, h]

theorem charAt_of_drop {c : Char} (h : cs.drop place = c :: rest) : charAt cs place = .ok c := by
  rw [charAt, Cursor.getElem?_of_drop h]

/-- A word is the same token or failure when its kind is looked up in the table of operators. -/
theorem wordToken_eq (place : Nat) (hne : word ≠ []) :
    wordToken place word = (ofWord place word).mapError Halt.lexical := by
  by_cases hand : word = ['A', 'N', 'D']
  · subst hand
    rfl
  by_cases hor : word = ['O', 'R']
  · subst hor
    rfl
  have hneAnd : String.ofList word ≠ "AND" := fun h =>
    hand (String.ofList_inj.mp (show String.ofList word = String.ofList ['A', 'N', 'D'] from h))
  have hneOr : String.ofList word ≠ "OR" := fun h =>
    hor (String.ofList_inj.mp (show String.ofList word = String.ofList ['O', 'R'] from h))
  have hnone : operatorTable.lookup (String.ofList word) = none := by
    simp [operatorTable, List.lookup_eq_none_iff, hneAnd, hneOr]
  obtain ⟨c, more, rfl⟩ := List.exists_cons_of_ne_nil hne
  have hunknown : ofWord place (c :: more) =
      if (c :: more).all isCapital = true ∧ 1 < (c :: more).length then
        .error ⟨place, String.singleton c, .unknownWord (String.ofList (c :: more))⟩
      else .ok ⟨.var, place, String.ofList ((c :: more).map Char.toLower)⟩ := by
    rw [ofWord, if_neg hand, if_neg hor]
    rfl
  rw [wordToken, hnone, hunknown]
  by_cases hcapitals : (c :: more).all isCapital = true
  · by_cases hlong : 1 < (c :: more).length
    · simp only [hcapitals, hlong, and_self, if_true]
      rfl
    · simp only [hcapitals, hlong, and_false, if_true, if_false]
      rfl
  · simp only [hcapitals]
    rfl

theorem lexFrom_blanks (hpiece : ∀ c ∈ piece, isSpace c = true) :
    lexFrom place (piece ++ rest) = lexFrom (place + piece.length) rest := by
  induction piece generalizing place with
  | nil => rfl
  | cons c piece ih =>
    have hmore : ∀ d ∈ piece, isSpace d = true := fun d hd => hpiece d (by simp [hd])
    rw [List.cons_append, lexFrom_space (hpiece c (by simp)), ih hmore, List.length_cons,
      Nat.add_assoc, Nat.add_comm 1]

/-- A character that is a token by itself, with its kind looked up. -/
theorem mark_eq {table : List (String × Kind)} {kind : Kind} {c : Char}
    (hkind : markKind? c = some kind) (hentry : table.lookup (String.ofList [c]) = some kind)
    (hbehind : lexAt cs turns (place + 1) =
      (lexFrom (place + 1) rest).mapError Halt.lexical) :
    (do
      let kind ← entry table (String.ofList [c])
      let tokens ← lexAt cs turns (place + 1)
      return ⟨kind, place, String.ofList [c]⟩ :: tokens) =
      (lexFrom place (c :: rest)).mapError Halt.lexical := by
  rw [lexFrom_mark hkind, Outcome.mapError_bind, entry_of_lookup hentry, ← hbehind]
  rfl

theorem lexAt_eq (hplace : place ≤ cs.length) (hturns : cs.length - place < turns) :
    lexAt cs turns place = (lexFrom place (cs.drop place)).mapError Halt.lexical := by
  induction turns generalizing place with
  | zero => omega
  | succ turns ih =>
    -- Behind a piece that is not empty the rest of the text takes fewer turns.
    have hbehind : ∀ piece rest, cs.drop place = piece ++ rest → piece ≠ [] →
        lexAt cs turns (place + piece.length) =
          (lexFrom (place + piece.length) rest).mapError Halt.lexical := by
      intro piece rest hdrop hne
      have hrest : cs.drop (place + piece.length) = rest := by
        rw [← List.drop_drop, hdrop, List.drop_left]
      have hpos : 0 < piece.length := List.length_pos_iff.mpr hne
      have hlength := congrArg List.length hdrop
      simp only [List.length_drop, List.length_append] at hlength
      rw [ih (by omega) (by omega), hrest]
    cases hdrop : cs.drop place with
    | nil =>
      have hlength : cs.length ≤ place := List.drop_eq_nil_iff.mp hdrop
      obtain rfl : place = cs.length := by omega
      rw [lexAt, if_neg (Nat.lt_irrefl _), lexFrom]
      rfl
    | cons c rest =>
      have hinside : place < cs.length := by
        have hlength := congrArg List.length hdrop
        simp only [List.length_drop, List.length_cons] at hlength
        omega
      have hnext := hbehind [c] rest hdrop (List.cons_ne_nil _ _)
      rw [lexAt, if_pos hinside, hdrop, firstPiece?]
      by_cases hspace : isSpace c = true
      · obtain ⟨hpiece, -, hsplit⟩ := cons_takeWhile hspace rest
        have hafter := hbehind _ _ (hdrop.trans hsplit) (List.cons_ne_nil _ _)
        rw [if_pos hspace, hsplit, lexFrom_blanks hpiece]
        exact hafter
      rw [if_neg hspace]
      by_cases hdigit : c = '0' ∨ c = '1'
      · rw [if_pos hdigit]
        rcases hdigit with rfl | rfl
        · exact mark_eq rfl rfl hnext
        · exact mark_eq rfl rfl hnext
      rw [if_neg hdigit]
      by_cases hletter : isLetter c = true
      · obtain ⟨hword, hrest, hsplit⟩ := cons_takeWhile hletter rest
        have hne : c :: rest.takeWhile isLetter ≠ [] := List.cons_ne_nil _ _
        have hafter := hbehind _ _ (hdrop.trans hsplit) hne
        rw [if_pos hletter, hsplit, lexFrom_word hne hword hrest]
        show (do
          let token ← wordToken place (c :: rest.takeWhile isLetter)
          let tokens ← lexAt cs turns (place + (c :: rest.takeWhile isLetter).length)
          return token :: tokens) = _
        rw [wordToken_eq place hne, hafter, Outcome.mapError_bind]
        refine Outcome.bind_congr fun token _ => ?_
        rw [Outcome.mapError_bind]
        rfl
      rw [if_neg hletter]
      by_cases hparen : c = '(' ∨ c = ')'
      · rw [if_pos hparen]
        rcases hparen with rfl | rfl
        · exact mark_eq rfl rfl hnext
        · exact mark_eq rfl rfl hnext
      · have hnone : markKind? c = none := by
          simp only [not_or] at hdigit hparen
          simp [markKind?, hdigit.1, hdigit.2, hparen.1, hparen.2]
        have hhere : charAt cs place = .ok c := charAt_of_drop hdrop
        rw [if_neg hparen, lexFrom, if_neg hspace, if_neg hletter, hnone]
        show (do
          let c ← charAt cs place
          .error (.lexical ⟨place, String.singleton c, .unexpectedCharacter⟩)) = _
        rw [hhere]
        rfl

theorem lex_eq (source : String) : lex source = (Token.lex source).mapError Halt.lexical := by
  have hlength : source.length = source.toList.length := String.length_toList.symm
  rw [lex, lexAt_eq (Nat.zero_le _) (by omega)]
  rfl

theorem readTokens_eq {limit : NestingLimit}
    (h : NestingLimit.ofInt "max_depth" maxDepth = .ok limit) (tokens : List Token) :
    readTokens maxDepth tokens = (Expr.ofTokens limit tokens).mapError Halt.malformed := by
  rw [readTokens, h]
  exact Cursor.parse_marked limit tokens (Nat.le_refl _)

theorem parse_eq {limit : NestingLimit} (h : NestingLimit.ofInt "max_depth" maxDepth = .ok limit)
    (maxLength : Int) (source : String) :
    parse maxLength maxDepth source =
      (Engine.parse ⟨maxLength, limit⟩ source).mapError .refused := by
  by_cases hlong : maxLength ≠ 0 ∧ maxLength < source.length
  · rw [parse, if_pos hlong, Engine.parse_tooLong hlong]
    rfl
  · rw [parse, if_neg hlong, lex_eq]
    cases hlex : Token.lex source with
    | error e =>
      rw [Engine.parse_of_lex_error hlong hlex]
      rfl
    | ok tokens =>
      rw [Engine.parse_of_lex hlong hlex]
      show readTokens maxDepth tokens = _
      rw [readTokens_eq h]
      cases Expr.ofTokens limit tokens <;> rfl

/-- A tree and a map are enough for evaluation: every name that is looked up is found, and so is
every operand. -/
theorem evaluateTree_eq (e : Expr) (b : Bindings) :
    evaluateTree e b = (e.evaluate b).mapError .refused := by
  rw [evaluateTree, Expr.evaluate_eq, valuesFor]
  by_cases hnone : (e.missing b).isEmpty = true
  · have hfound : ∀ name ∈ e.vars.toList, (do
        let value ← entry b.entries name
        return (name, value) : Except Halt (String × Bool)) =
          .ok (name, (b.find? name).getD false) := by
      intro name hname
      have hcontains := Expr.missing_isEmpty_iff.mp hnone name (NameSet.mem_def.mpr hname)
      obtain ⟨value, hvalue⟩ := Option.isSome_iff_exists.mp hcontains
      rw [entry_of_lookup hvalue, hvalue]
      rfl
    have hlookup : ∀ name ∈ e.names,
        (e.vars.toList.map fun name => (name, (b.find? name).getD false)).lookup name =
          some ((b.find? name).getD false) := by
      intro name hname
      have hvar : name ∈ e.vars.toList := NameSet.mem_def.mp (Expr.mem_vars.mpr hname)
      exact List.lookup_graph _ hvar
    rw [if_pos hnone, if_pos hnone, Outcome.mapM_eq_ok_map hfound]
    show (e.fold _).mapError foldHalt = _
    rw [Expr.fold_eq_eval, Expr.eval_eq_truth hlookup]
    rfl
  · rw [if_neg hnone, if_neg hnone]
    rfl

theorem validate_eq {engine : Engine} (h : parse maxLength maxDepth source =
    (engine.parse source).mapError .refused) :
    validate maxLength maxDepth source = .ok (engine.validate source) := by
  rw [validate, h, Engine.validate]
  cases engine.parse source <;> rfl

theorem evaluate_eq {engine : Engine} (h : parse maxLength maxDepth source =
    (engine.parse source).mapError .refused) (b : Bindings) :
    evaluate maxLength maxDepth source b = (engine.evaluate source b).mapError .refused := by
  rw [evaluate, h, Engine.evaluate, Outcome.mapError_bind]
  exact Outcome.bind_congr fun e _ => evaluateTree_eq e b

/-- A run with lookups that has the outcome of one without them breaks down nowhere. -/
theorem ok_or_error {ε α : Type} {x : Except Halt α} {y : Except ε α} {f : ε → Halt}
    (h : x = y.mapError f) :
    (∃ a, x = .ok a ∧ y = .ok a) ∨ ∃ e, x = .error (f e) ∧ y = .error e := by
  cases y with
  | ok a => exact Or.inl ⟨a, h, rfl⟩
  | error e => exact Or.inr ⟨e, h, rfl⟩

/-- Nothing breaks down. Under any limit on nesting that is accepted, every sequence of tokens is
read, through lookups that all succeed and with the stack always that of the parentheses left open,
as a tree, or refused with one of six failures; and an engine with that limit and any limit on
length reads every text as a tree, or refuses it with one of these, a lexical error or its length.
Evaluation adds nothing but the failure that variables lack values. -/
theorem ends_without_fault (hlow : 1 ≤ maxDepth) (hhigh : maxDepth ≤ 128) :
    (∀ tokens,
      (∃ e, readTokens maxDepth tokens = .ok e ∧ Expr.readTokens maxDepth tokens = .ok e) ∨
      ∃ e : SyntaxError, e.OfTokens ∧ readTokens maxDepth tokens = .error (.malformed e) ∧
        Expr.readTokens maxDepth tokens = .error (.refused (.malformed e))) ∧
    ∀ maxLength, ∃ engine, Engine.ofLimits maxLength maxDepth = .ok engine ∧ ∀ source,
      ((∃ e, parse maxLength maxDepth source = .ok e ∧ engine.parse source = .ok e ∧
          validate maxLength maxDepth source = .ok .valid ∧ engine.validate source = .valid) ∨
        ∃ e : ExprError, e.OfText ∧
          parse maxLength maxDepth source = .error (.refused e) ∧ engine.parse source = .error e ∧
          validate maxLength maxDepth source = .ok (.invalid e) ∧
          engine.validate source = .invalid e) ∧
      ∀ b,
        (∃ value, evaluate maxLength maxDepth source b = .ok value ∧
          engine.evaluate source b = .ok value) ∨
        ∃ e : ExprError, (e.OfText ∨ ∃ missing, e = .unboundVariables missing) ∧
          evaluate maxLength maxDepth source b = .error (.refused e) ∧
          engine.evaluate source b = .error e := by
  obtain ⟨limit, hlimit⟩ : ∃ limit, ∀ parameter,
      NestingLimit.ofInt parameter maxDepth = .ok limit := by
    refine ⟨⟨maxDepth.toNat, by omega, Int.toNat_le.mpr hhigh⟩, fun parameter => ?_⟩
    rw [NestingLimit.ofInt, dif_pos ⟨hlow, hhigh⟩]
  refine ⟨fun tokens => ?_,
    fun maxLength => ⟨⟨maxLength, limit⟩, ?_, fun source => ⟨?_, fun b => ?_⟩⟩⟩
  · have hplain := Expr.readTokens_of_limit (hlimit _) tokens
    rcases ok_or_error (readTokens_eq (hlimit _) tokens) with ⟨e, hread, hok⟩ | ⟨e, hread, herror⟩
    · rw [hok] at hplain
      exact Or.inl ⟨e, hread, hplain⟩
    · rw [herror] at hplain
      exact Or.inr ⟨e, Expr.ofTokens_error herror, hread, hplain⟩
  · rw [Engine.ofLimits, hlimit]
    rfl
  · have hparse := parse_eq (hlimit _) maxLength source
    have hvalidate := validate_eq hparse
    rcases ok_or_error hparse with ⟨e, hread, hok⟩ | ⟨e, hread, herror⟩
    · have hvalid : Engine.validate ⟨maxLength, limit⟩ source = .valid := by
        rw [Engine.validate, hok]
      rw [hvalid] at hvalidate
      exact Or.inl ⟨e, hread, hok, hvalidate, hvalid⟩
    · have hinvalid := Engine.validate_eq_invalid_iff.mpr herror
      rw [hinvalid] at hvalidate
      exact Or.inr ⟨e, Engine.parse_error herror, hread, herror, hvalidate, hinvalid⟩
  · have hevaluate := evaluate_eq (parse_eq (hlimit _) maxLength source) b
    rcases ok_or_error hevaluate with ⟨value, hvalue, hok⟩ | ⟨e, hfail, herror⟩
    · exact Or.inl ⟨value, hvalue, hok⟩
    · refine Or.inr ⟨e, ?_, hfail, herror⟩
      rcases Outcome.bind_eq_error.mp herror with hparse | ⟨tree, -, hunbound⟩
      · exact Or.inl (Engine.parse_error hparse)
      · rw [Expr.evaluate_eq] at hunbound
        split at hunbound
        · cases hunbound
        · exact Or.inr ⟨_, (Except.error.inj hunbound).symm⟩

/-- At the largest limit, a parenthesis before an early end mark, and a text that ends inside
one. -/
theorem ends_without_fault_at_max :
    (1 : Int) ≤ 128 ∧ (128 : Int) ≤ 128 ∧
      (∃ e : SyntaxError, e.OfTokens ∧ readTokens 128
        [⟨.opening, 0, "("⟩, ⟨.finish, 1, ""⟩, ⟨.closing, 2, ")"⟩] = .error (.malformed e)) ∧
      ∃ engine, Engine.ofLimits 0 128 = .ok engine ∧
        ∃ e : ExprError, e.OfText ∧ engine.validate "(x" = .invalid e := by
  have hlow : (1 : Int) ≤ 128 := by decide
  have hhigh : (128 : Int) ≤ 128 := by decide
  obtain ⟨htokens, hengine⟩ := ends_without_fault hlow hhigh
  refine ⟨hlow, hhigh, ?_, ?_⟩
  · have hread : readTokens 128
        [⟨.opening, 0, "("⟩, ⟨.finish, 1, ""⟩, ⟨.closing, 2, ")"⟩] =
          .error (.malformed (.unmatchedParen 0 "(")) := by rfl
    rcases htokens [⟨.opening, 0, "("⟩, ⟨.finish, 1, ""⟩, ⟨.closing, 2, ")"⟩] with
      ⟨e, hok, -⟩ | ⟨e, he, herror, -⟩
    · cases (hread.symm.trans hok)
    · exact ⟨e, he, herror⟩
  · obtain ⟨engine, hlimits, htext⟩ := hengine 0
    have hparse : parse 0 128 "(x" = .error (.malformed (.unmatchedParen 0 "(")) := by rfl
    rcases (htext "(x").1 with ⟨e, hok, -⟩ | ⟨e, he, -, -, -, hinvalid⟩
    · cases (hparse.symm.trans hok)
    · exact ⟨engine, hlimits, e, he, hinvalid⟩

end Lookups

end BoolExpr
