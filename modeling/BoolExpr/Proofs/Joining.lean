import BoolExpr.Proofs.Concatenation
import BoolExpr.Proofs.Splice
import BoolExpr.Proofs.TruthFunction

/-!
Two expressions with an operator between them, and no parentheses added. The second one does not
become an operand: the operands of its chain are added to the chain of the first, one by one, so its
tree does not occur in that of the whole. What the whole says is nevertheless what the two say,
joined, since it does not matter how a chain is grouped. Hence nor does it matter, for whatever is
asked about them, in which order two texts are joined, or whether three are joined as they are or in
parentheses. An AND binds tighter than an OR, so a text with an OR outside all parentheses is no
chain of AND, and must be left out there.
-/
namespace BoolExpr

def Op.between (op : Op) (a b : String) : String := a ++ " " ++ op.word ++ " " ++ b

/-- What comes of an operator when each operand has a value or lacks the values of some names: all
that is missing on either side, or else the value. -/
def Op.joinOutcomes : Op → Except NameSet Bool → Except NameSet Bool → Except NameSet Bool
  | .and, .ok x, .ok y => .ok (x && y)
  | .or, .ok x, .ok y => .ok (x || y)
  | _, .ok _, .error missing => .error missing
  | _, .error missing, .ok _ => .error missing
  | _, .error missing, .error missing' => .error (missing.union missing')

theorem Op.joinOutcomes_ok (op : Op) (x y : Bool) :
    op.joinOutcomes (.ok x) (.ok y) = .ok (op.apply x y) := by
  cases op with
  | and => rfl
  | or => rfl

namespace TruthFunction

def outcome (f : TruthFunction) (b : Bindings) : Except NameSet Bool :=
  if (f.missing b).isEmpty then .ok (f.valueUnder fun name => (b.find? name).getD false)
  else .error (f.missing b)

theorem evaluate_eq_outcome (f : TruthFunction) (b : Bindings) :
    f.evaluate b = (f.outcome b).mapError .unboundVariables := by
  unfold evaluate outcome
  split
  · rfl
  · rfl

theorem missing_join (op : Op) (f g : TruthFunction) (b : Bindings) :
    (join op f g).missing b = (f.missing b).union (g.missing b) := by
  apply NameSet.ext
  intro name
  simp only [missing, join, NameSet.mem_filter, NameSet.mem_union, or_and_right]

theorem outcome_join (op : Op) (f g : TruthFunction) (b : Bindings) :
    (join op f g).outcome b = op.joinOutcomes (f.outcome b) (g.outcome b) := by
  unfold outcome
  rw [missing_join]
  by_cases hf : (f.missing b).isEmpty = true
  · rw [if_pos hf, NameSet.union_eq_right hf]
    by_cases hg : (g.missing b).isEmpty = true
    · rw [if_pos hg, if_pos hg, valueUnder_join, Op.joinOutcomes_ok]
    · rw [if_neg hg, if_neg hg, Op.joinOutcomes]
  · have hunion : ¬((f.missing b).union (g.missing b)).isEmpty = true :=
      fun h => hf (NameSet.isEmpty_union.mp h).1
    rw [if_neg hf, if_neg hunion]
    by_cases hg : (g.missing b).isEmpty = true
    · rw [if_pos hg, NameSet.union_eq_left hg, Op.joinOutcomes]
    · rw [if_neg hg, Op.joinOutcomes]

end TruthFunction

namespace Token

theorem body_map_moveBy (n : Nat) (tokens : List Token) :
    body (tokens.map (moveBy n)) = (body tokens).map (moveBy n) := by
  unfold body
  rw [List.takeWhile_map]
  rfl

theorem Lexes.moveBy {cs : List Char} {tokens : List Token} (h : Lexes 0 cs tokens) (n : Nat) :
    Lexes n cs (tokens.map (moveBy n)) := by
  apply lexes_of_lexFrom
  rw [← Nat.zero_add n, lexFrom_add, lexFrom_of_lexes h, Nat.zero_add]
  rfl

end Token

namespace Grammar

variable {l : Level} {op : Op}

namespace Derivation

/-- Adds the operands of a second chain, and the operators between them, to a first one. -/
def append (d : Derivation (.chain op)) (t : Token) (ht : t.kind = .operator op) :
    Derivation (.chain op) → Derivation (.chain op)
  | .single first => d.join t ht first
  | .join front u hu last => (d.append t ht front).join u hu last

theorem yield_append (d : Derivation (.chain op)) (t : Token) (ht : t.kind = .operator op)
    (d' : Derivation (.chain op)) : (d.append t ht d').yield = d.yield ++ t :: d'.yield := by
  induction d' using append.induct with
  | case1 first =>
    rw [append]
    rfl
  | case2 front u hu last ih =>
    rw [append, yield, ih, yield, List.append_assoc, List.cons_append]

theorem depth_append (d : Derivation (.chain op)) (t : Token) (ht : t.kind = .operator op)
    (d' : Derivation (.chain op)) : (d.append t ht d').depth = max d.depth d'.depth := by
  induction d' using append.induct with
  | case1 first =>
    rw [append]
    rfl
  | case2 front u hu last ih => rw [append, depth, ih, depth, Nat.max_assoc]

/-- The tree of a chain that is added to another does not occur in that of the whole, but what the
chains say is joined. -/
theorem ofExpr_tree_append (d : Derivation (.chain op)) (t : Token) (ht : t.kind = .operator op)
    (d' : Derivation (.chain op)) :
    TruthFunction.ofExpr (d.append t ht d').tree =
      .join op (.ofExpr d.tree) (.ofExpr d'.tree) := by
  -- on the chain that is added, whose last operand is the last one of the whole
  induction d' using append.induct with
  | case1 first =>
    rw [append, tree, tree]
    exact TruthFunction.ofExpr_binary op d.tree first.tree
  | case2 front u hu last ih =>
    rw [append, tree, tree, TruthFunction.ofExpr_binary, TruthFunction.ofExpr_binary, ih]
    exact TruthFunction.join_assoc op _ _ _

end Derivation

variable {s s' : String} {e e' : Expr} {depth depth' : Nat}

/-- What a text spells at the start, it spells wherever it begins. -/
theorem Spelling.spells (x : Spelling l 0 s e depth) : Spells l s e depth := by
  intro p
  have hshapes : (Token.body (x.tokens.map (Token.moveBy p))).map Token.shape =
      x.derivation.yield.map Token.shape := by
    rw [x.yield_eq, Token.body_map_moveBy, List.map_map]
    rfl
  obtain ⟨d, hyield, htree, hdepth⟩ := x.derivation.exists_of_shapes hshapes
  exact ⟨{
    tokens := _
    lexes := x.lexes.moveBy p
    derivation := d
    yield_eq := hyield
    tree_eq := htree.trans x.tree_eq
    depth_eq := hdepth.trans x.depth_eq }⟩

/-- Two chains of an operator with the operator between them are one chain. -/
theorem Spells.append (h : Spells (.chain op) s e depth) (h' : Spells (.chain op) s' e' depth') :
    ∃ g, Spells (.chain op) (op.between s s') g (max depth depth') ∧
      TruthFunction.ofExpr g = .join op (.ofExpr e) (.ofExpr e') := by
  obtain ⟨x⟩ := h 0
  obtain ⟨y⟩ := h' (0 + s.toList.length + 1 + op.word.length + 1)
  let t : Token := ⟨.operator op, (0 + s.toList.length + 1 : Nat), op.word⟩
  let d := x.derivation.append t rfl y.derivation
  have hyield : d.yield = Token.body (Token.body x.tokens ++ t :: y.tokens) := by
    rw [Derivation.yield_append, x.yield_eq, y.yield_eq, Token.body_append,
      Token.body_cons (by simp [t])]
  have hsays : TruthFunction.ofExpr d.tree = .join op (.ofExpr e) (.ofExpr e') := by
    rw [Derivation.ofExpr_tree_append, x.tree_eq, y.tree_eq]
  have hdepth : d.depth = max depth depth' := by
    rw [Derivation.depth_append, x.depth_eq, y.depth_eq]
  let whole : Spelling (.chain op) 0 (op.between s s') d.tree (max depth depth') := {
    tokens := _
    lexes := Spells.lexes_joined op x.lexes y.lexes
    derivation := d
    yield_eq := hyield
    tree_eq := rfl
    depth_eq := hdepth }
  exact ⟨d.tree, whole.spells, hsays⟩

end Grammar

def HasOuterOr (source : String) : Prop :=
  ∃ tokens front t back, Token.lex source = .ok tokens ∧ tokens = front ++ t :: back ∧
    t.kind = .operator .or ∧ Token.levelAfter 0 front = 0

theorem not_hasOuterOr_of_lex {source : String} {tokens : List Token}
    (hlex : Token.lex source = .ok tokens) (h : ∀ t ∈ tokens, t.kind ≠ .operator .or) :
    ¬HasOuterOr source := by
  rintro ⟨tokens', front, t, back, hlex', hsplit, ht, -⟩
  rw [hlex, Except.ok.injEq] at hlex'
  refine h t ?_ ht
  rw [hlex', hsplit]
  simp

namespace Grammar

variable {l : Level} {op : Op} {limit wider : NestingLimit} {s s' : String} {e : Expr}
  {depth : Nat} {f g : TruthFunction}

/-- Without an OR outside all parentheses, the tokens of a text are a chain of AND. -/
theorem Spelling.conjunction (x : Spelling expression 0 s e depth) (hor : ¬HasOuterOr s) :
    Nonempty (Spelling (.chain .and) 0 s e depth) := by
  obtain ⟨tokens, lexes, d, hyield, htree, hdepth⟩ := x
  cases d with
  | single first => exact ⟨⟨tokens, lexes, first, hyield, htree, hdepth⟩⟩
  | join front t ht last =>
    refine absurd ?_ hor
    have hlex : Token.lex s = .ok tokens := Token.lexFrom_of_lexes lexes
    have htokens := lexes.eq_body_append
    rw [← hyield, Derivation.yield, List.append_assoc, List.cons_append] at htokens
    exact ⟨tokens, front.yield, t, _, hlex, htokens, ht, front.levelAfter_yield⟩

/-- The text may stand in the place `l`, within the limit, and says `f` there. -/
def Says (l : Level) (limit : NestingLimit) (s : String) (f : TruthFunction) : Prop :=
  ∃ e depth, Spells l s e depth ∧ depth ≤ limit.value ∧ TruthFunction.ofExpr e = f

namespace Says

theorem join (h : Says (.chain op) limit s f) (h' : Says (.chain op) limit s' g) :
    Says (.chain op) limit (op.between s s') (.join op f g) := by
  obtain ⟨e, depth, hspells, hdepth, rfl⟩ := h
  obtain ⟨e', depth', hspells', hdepth', rfl⟩ := h'
  obtain ⟨whole, hwhole, hsays⟩ := hspells.append hspells'
  exact ⟨whole, _, hwhole, Nat.max_le.mpr ⟨hdepth, hdepth'⟩, hsays⟩

/-- In parentheses, a text may stand in any place. -/
theorem enclosed (h : Says (.chain op) limit s f) (hwider : wider.value = limit.value + 1)
    (l : Level) : Says l wider ("(" ++ s ++ ")") f := by
  obtain ⟨e, depth, hspells, hdepth, hsays⟩ := h
  exact ⟨e, depth + 1, hspells.whole.group.of_operand l, by omega, hsays⟩

theorem mono (h : Says l limit s f) (hle : limit.value ≤ wider.value) : Says l wider s f := by
  obtain ⟨e, depth, hspells, hdepth, hsays⟩ := h
  exact ⟨e, depth, hspells, Nat.le_trans hdepth hle, hsays⟩

theorem exists_parse (h : Says l limit s f) :
    ∃ e, (Engine.unlimited limit).parse s = .ok e ∧ TruthFunction.ofExpr e = f := by
  obtain ⟨e, depth, hspells, hdepth, hsays⟩ := h
  obtain ⟨x⟩ := hspells.whole 0
  exact ⟨e, Engine.parse_of_spelling x rfl hdepth, hsays⟩

theorem evaluate_eq (h : Says l limit s f) (b : Bindings) :
    (Engine.unlimited limit).evaluate s b = (f.outcome b).mapError .unboundVariables := by
  obtain ⟨e, hparse, rfl⟩ := h.exists_parse
  rw [Engine.evaluate_of_parse hparse, ← TruthFunction.evaluate_ofExpr,
    TruthFunction.evaluate_eq_outcome]

/-- What is read can be joined by OR, and by AND if there is no OR outside all parentheses. -/
theorem of_parse (h : (Engine.unlimited limit).parse s = .ok e) (hor : op = .and → ¬HasOuterOr s) :
    Says (.chain op) limit s (.ofExpr e) := by
  obtain ⟨depth, hdepth, ⟨x⟩⟩ := Engine.exists_spelling_of_parse h
  cases op with
  | or => exact ⟨e, depth, x.spells, hdepth, rfl⟩
  | and =>
    obtain ⟨y⟩ := x.conjunction (hor rfl)
    exact ⟨e, depth, y.spells, hdepth, rfl⟩

end Says

end Grammar

namespace Engine

open Grammar

/-- Joining texts that are read. Two texts with an OR between them, and no parentheses added, are
read under the limit that admits both of them, and so are two texts with an AND between them if
neither has an OR outside all parentheses. The whole has the variables of both; it lacks the values
that either of them lacks, and if there are none, the operator joins the values of the two; the same
comes of it in the other order. Under a limit that admits one more level of parentheses, the same
comes of three texts as they are, with the first two in parentheses, and with the last two. -/
theorem evaluate_between (limit : NestingLimit) (op : Op) :
    (∀ a b e f, (unlimited limit).parse a = .ok e → (unlimited limit).parse b = .ok f →
      (op = .and → ¬HasOuterOr a ∧ ¬HasOuterOr b) →
      (∃ g, (unlimited limit).parse (op.between a b) = .ok g ∧ g.vars = e.vars.union f.vars) ∧
      ∀ values : Bindings,
        (∃ x y, (unlimited limit).evaluate a values = x.mapError .unboundVariables ∧
          (unlimited limit).evaluate b values = y.mapError .unboundVariables ∧
          (unlimited limit).evaluate (op.between a b) values =
            (op.joinOutcomes x y).mapError .unboundVariables) ∧
        (unlimited limit).evaluate (op.between b a) values =
          (unlimited limit).evaluate (op.between a b) values) ∧
    ∀ wider : NestingLimit, wider.value = limit.value + 1 → ∀ a b c,
      (∀ s ∈ [a, b, c], (∃ e, (unlimited limit).parse s = .ok e) ∧ (op = .and → ¬HasOuterOr s)) →
      let plain := op.between (op.between a b) c
      let left := op.between ("(" ++ op.between a b ++ ")") c
      let right := op.between a ("(" ++ op.between b c ++ ")")
      (∀ s ∈ [plain, left, right], ∃ e, (unlimited wider).parse s = .ok e) ∧
      ∀ values : Bindings,
        (unlimited wider).evaluate left values = (unlimited wider).evaluate plain values ∧
        (unlimited wider).evaluate right values = (unlimited wider).evaluate plain values := by
  constructor
  · intro a b e f he hf hor
    have ha : Says (.chain op) limit a (.ofExpr e) := .of_parse he fun hop => (hor hop).1
    have hb : Says (.chain op) limit b (.ofExpr f) := .of_parse hf fun hop => (hor hop).2
    have hab := ha.join hb
    have hba := hb.join ha
    rw [TruthFunction.join_comm] at hba
    obtain ⟨g, hg, hsays⟩ := hab.exists_parse
    refine ⟨⟨g, hg, congrArg TruthFunction.vars hsays⟩, fun values => ⟨?_, ?_⟩⟩
    · refine ⟨_, _, ha.evaluate_eq values, hb.evaluate_eq values, ?_⟩
      rw [hab.evaluate_eq, TruthFunction.outcome_join]
    · rw [hba.evaluate_eq, hab.evaluate_eq]
  · intro wider hwider a b c hall plain left right
    have hsays : ∀ s ∈ [a, b, c], ∃ f, Says (.chain op) limit s f := by
      intro s hs
      obtain ⟨⟨e, he⟩, hor⟩ := hall s hs
      exact ⟨_, .of_parse he hor⟩
    obtain ⟨f, ha⟩ := hsays a (by simp)
    obtain ⟨g, hb⟩ := hsays b (by simp)
    obtain ⟨h, hc⟩ := hsays c (by simp)
    have hle : limit.value ≤ wider.value := by omega
    have hplain : Says (.chain op) wider plain (.join op (.join op f g) h) :=
      ((ha.join hb).join hc).mono hle
    have hleft : Says (.chain op) wider left (.join op (.join op f g) h) :=
      ((ha.join hb).enclosed hwider _).join (hc.mono hle)
    have hright : Says (.chain op) wider right (.join op (.join op f g) h) := by
      rw [TruthFunction.join_assoc]
      exact (ha.mono hle).join ((hb.join hc).enclosed hwider _)
    constructor
    · intro s hs
      have hread : Says (.chain op) wider s (.join op (.join op f g) h) := by
        simp only [List.mem_cons, List.not_mem_nil, or_false] at hs
        rcases hs with rfl | rfl | rfl
        · exact hplain
        · exact hleft
        · exact hright
      obtain ⟨e, he, -⟩ := hread.exists_parse
      exact ⟨e, he⟩
    · intro values
      rw [hleft.evaluate_eq, hright.evaluate_eq, hplain.evaluate_eq]
      exact ⟨rfl, rfl⟩

/-- Chains of AND. The first one is false, and what the second one lacks is missing all the same. -/
theorem evaluate_between_of_chains :
    let limit : NestingLimit := ⟨1, by decide, by decide⟩
    let wider : NestingLimit := ⟨2, by decide, by decide⟩
    let values := Bindings.ofList [("x", true), ("y", false)]
    (∀ s ∈ ["x AND y", "1 AND z", "w"], (∃ e, (unlimited limit).parse s = .ok e) ∧ ¬HasOuterOr s) ∧
      wider.value = limit.value + 1 ∧
      (unlimited limit).evaluate "x AND y AND 1 AND z" values =
        .error (.unboundVariables (.ofList ["z"])) ∧
      (unlimited limit).evaluate "1 AND z AND x AND y" values =
        (unlimited limit).evaluate "x AND y AND 1 AND z" values ∧
      (unlimited wider).evaluate "x AND y AND (1 AND z AND w)" values =
        (unlimited wider).evaluate "x AND y AND 1 AND z AND w" values := by
  intro limit wider values
  have hx : (unlimited limit).parse "x AND y" = .ok (.binary .and (.var "x") (.var "y")) := by
    with_unfolding_all rfl
  have hz : (unlimited limit).parse "1 AND z" = .ok (.binary .and (.literal true) (.var "z")) := by
    with_unfolding_all rfl
  have hw : (unlimited limit).parse "w" = .ok (.var "w") := by
    with_unfolding_all rfl
  have hlexx : Token.lex "x AND y" =
      .ok [⟨.var, 0, "x"⟩, ⟨.operator .and, 2, "AND"⟩, ⟨.var, 6, "y"⟩, ⟨.finish, 7, ""⟩] := by
    with_unfolding_all rfl
  have hlexz : Token.lex "1 AND z" =
      .ok [⟨.literal true, 0, "1"⟩, ⟨.operator .and, 2, "AND"⟩, ⟨.var, 6, "z"⟩,
        ⟨.finish, 7, ""⟩] := by
    with_unfolding_all rfl
  have hlexw : Token.lex "w" = .ok [⟨.var, 0, "w"⟩, ⟨.finish, 1, ""⟩] := by
    with_unfolding_all rfl
  have hxor := not_hasOuterOr_of_lex hlexx (by decide)
  have hzor := not_hasOuterOr_of_lex hlexz (by decide)
  have hwor := not_hasOuterOr_of_lex hlexw (by decide)
  have hall : ∀ s ∈ ["x AND y", "1 AND z", "w"],
      (∃ e, (unlimited limit).parse s = .ok e) ∧ ¬HasOuterOr s := by
    intro s hs
    simp only [List.mem_cons, List.not_mem_nil, or_false] at hs
    rcases hs with rfl | rfl | rfl
    · exact ⟨⟨_, hx⟩, hxor⟩
    · exact ⟨⟨_, hz⟩, hzor⟩
    · exact ⟨⟨_, hw⟩, hwor⟩
  obtain ⟨hpair, hgroup⟩ := evaluate_between limit .and
  obtain ⟨-, hvalues⟩ := hpair _ _ _ _ hx hz fun _ => ⟨hxor, hzor⟩
  obtain ⟨⟨a, b, ha, hb, hab⟩, hcomm⟩ := hvalues values
  obtain ⟨-, hsame⟩ := hgroup wider rfl _ _ _ fun s hs => ⟨(hall s hs).1, fun _ => (hall s hs).2⟩
  refine ⟨hall, rfl, ?_, hcomm, (hsame values).2⟩
  have hvaluex : (unlimited limit).evaluate "x AND y" values = .ok false := by
    rw [evaluate_of_parse hx, Expr.evaluate_eq]
    rfl
  have hvaluez : (unlimited limit).evaluate "1 AND z" values =
      .error (.unboundVariables (.ofList ["z"])) := by
    rw [evaluate_of_parse hz, Expr.evaluate_eq]
    rfl
  rw [hvaluex] at ha
  rw [hvaluez] at hb
  obtain rfl : a = .ok false := Outcome.mapError_eq_ok.mp ha.symm
  obtain rfl : b = .error (.ofList ["z"]) := by
    cases b with
    | ok value => cases hb
    | error missing =>
      rw [Outcome.mapError_error, Except.error.injEq, ExprError.unboundVariables.injEq] at hb
      rw [hb]
  exact hab

end Engine

end BoolExpr
