import BoolExpr.Proofs.TruthFunction
import BoolExpr.Session

/-!
Sessions without trees. A session that keeps for each name only what its tree says, a set of
variables and a truth function, gives the answers of the session that keeps the trees; where that
one shows a tree, it gives what the tree says. The main statement is that this holds for every
sequence of steps, however the trees were combined before, and that a step changes at most the tree
that it shows, under the name that it is to be stored under.
-/
namespace BoolExpr

namespace Session

def Step.target? : Step → Option String
  | .parse name _ => some name
  | .combine name _ _ => some name
  | _ => none

/-- An answer, or what a tree says in the place of an answer that shows the tree. -/
inductive Reply where
  | answer (a : Answer)
  | function (f : TruthFunction)

def Answer.reply : Answer → Reply
  | .tree e => .function (.ofExpr e)
  | a => .answer a

end Session

structure FunctionSession where
  engine : Engine
  function? : String → Option TruthFunction

namespace FunctionSession

open Session (Step Answer Reply)

def start (engine : Engine) : FunctionSession := ⟨engine, fun _ => none⟩

def store (s : FunctionSession) (name : String) (f : TruthFunction) : FunctionSession :=
  { s with function? := fun other => if other = name then some f else s.function? other }

def ask (s : FunctionSession) (name : String) (reply : TruthFunction → Reply) : Reply :=
  match s.function? name with
  | some f => reply f
  | none => .answer .noTree

def validate (s : FunctionSession) (source : String) : Verdict :=
  match TruthFunction.ofText s.engine source with
  | .ok _ => .valid
  | .error e => .invalid e

def step (s : FunctionSession) : Step → FunctionSession × Reply
  | .parse name source =>
    match TruthFunction.ofText s.engine source with
    | .ok f => (s.store name f, .function f)
    | .error e => (s, .answer (.failure e))
  | .validate source => (s, .answer (.verdict (s.validate source)))
  | .evaluateText source b =>
    (s, .answer (.ofExcept .value (TruthFunction.ofText s.engine source >>= (·.evaluate b))))
  | .evaluate name b => (s, s.ask name fun f => .answer (.ofExcept .value (f.evaluate b)))
  | .bind name b => (s, s.ask name fun f => .answer (.ofExcept .bindings (f.bind b)))
  | .combine name other op =>
    match s.function? name, s.function? other with
    | some f, some g =>
      let joined := TruthFunction.join op f g
      (s.store name joined, .function joined)
    | _, _ => (s, .answer .noTree)
  | .table name => (s, s.ask name fun f => .answer (.table f.table))
  | .display name => (s, s.ask name .function)

section

variable {s : FunctionSession} {name other source : String} {op : Op} {f g : TruthFunction}
  {e : ExprError}

theorem step_parse_ok (h : TruthFunction.ofText s.engine source = .ok f) :
    s.step (.parse name source) = (s.store name f, .function f) := by
  simp only [step, h]

theorem step_parse_error (h : TruthFunction.ofText s.engine source = .error e) :
    s.step (.parse name source) = (s, .answer (.failure e)) := by
  simp only [step, h]

theorem step_combine (hleft : s.function? name = some f) (hright : s.function? other = some g) :
    s.step (.combine name other op) = (s.store name (.join op f g), .function (.join op f g)) := by
  simp only [step, hleft, hright]

theorem step_combine_none (h : s.function? name = none ∨ s.function? other = none) :
    s.step (.combine name other op) = (s, .answer .noTree) := by
  rcases h with h | h
  · simp only [step, h]
  · cases hleft : s.function? name <;> simp only [step, hleft, h]

end

def run (s : FunctionSession) : List Step → List Reply
  | [] => []
  | step :: steps => (s.step step).2 :: (s.step step).1.run steps

end FunctionSession

namespace Session

def functions (s : Session) : FunctionSession :=
  ⟨s.engine, fun name => (s.tree? name).map .ofExpr⟩

variable {s : Session} {name other source : String} {op : Op} {e left right : Expr}

theorem step_parse_ok (h : s.engine.parse source = .ok e) :
    s.step (.parse name source) = (s.store name e, .tree e) := by
  simp only [step, h]

theorem step_parse_error {failure : ExprError} (h : s.engine.parse source = .error failure) :
    s.step (.parse name source) = (s, .failure failure) := by
  simp only [step, h]

theorem step_combine (hleft : s.tree? name = some left) (hright : s.tree? other = some right) :
    s.step (.combine name other op) =
      (s.store name (.binary op left right), .tree (.binary op left right)) := by
  simp only [step, hleft, hright]

theorem step_combine_none (h : s.tree? name = none ∨ s.tree? other = none) :
    s.step (.combine name other op) = (s, .noTree) := by
  rcases h with h | h
  · simp only [step, h]
  · cases hleft : s.tree? name <;> simp only [step, hleft, h]

theorem function?_functions (h : s.tree? name = some e) :
    s.functions.function? name = some (.ofExpr e) := congrArg (Option.map _) h

theorem function?_functions_none (h : s.tree? name = none) :
    s.functions.function? name = none := congrArg (Option.map _) h

theorem functions_store (s : Session) (name : String) (e : Expr) :
    (s.store name e).functions = s.functions.store name (.ofExpr e) := by
  unfold functions FunctionSession.store
  congr 1
  funext other
  rw [tree?_store]
  by_cases h : other = name
  · rw [if_pos h, if_pos h]
    rfl
  · rw [if_neg h, if_neg h]

/-- Questions about what is stored have the same reply if they have it for every tree. -/
theorem ask_functions {answer : Expr → Answer} {reply : TruthFunction → Reply}
    (h : ∀ e, reply (.ofExpr e) = (answer e).reply) (s : Session) (name : String) :
    s.functions.ask name reply = (s.ask name answer).reply := by
  unfold FunctionSession.ask ask
  cases htree : s.tree? name with
  | none =>
    rw [function?_functions_none htree]
    rfl
  | some e =>
    rw [function?_functions htree]
    exact h e

theorem reply_ofExcept {α : Type} {answer : α → Answer}
    (h : ∀ a, (answer a).reply = .answer (answer a)) (outcome : Except ExprError α) :
    (Answer.ofExcept answer outcome).reply = .answer (.ofExcept answer outcome) := by
  cases outcome with
  | ok a => exact h a
  | error e => rfl

theorem validate_functions (s : Session) (source : String) :
    s.functions.validate source = s.engine.validate source := by
  have htext := TruthFunction.ofText_eq s.functions.engine source
  unfold FunctionSession.validate Engine.validate
  rw [htext]
  show (match (s.engine.parse source).map TruthFunction.ofExpr with
    | .ok _ => Verdict.valid
    | .error e => .invalid e) = _
  cases s.engine.parse source with
  | ok e => rfl
  | error e => rfl

theorem evaluateText_functions (engine : Engine) (source : String) (b : Bindings) :
    (TruthFunction.ofText engine source >>= (·.evaluate b)) = engine.evaluate source b := by
  rw [TruthFunction.ofText_eq, Engine.evaluate]
  cases engine.parse source with
  | ok e => exact TruthFunction.evaluate_ofExpr e b
  | error e => rfl

/-- Reading a text under a name does to what the trees say what it does to the trees. -/
theorem step_functions_parse (s : Session) (name source : String) :
    s.functions.step (.parse name source) =
      ((s.step (.parse name source)).1.functions, (s.step (.parse name source)).2.reply) := by
  have htext : TruthFunction.ofText s.functions.engine source =
      (s.engine.parse source).map .ofExpr := TruthFunction.ofText_eq s.engine source
  cases hparse : s.engine.parse source with
  | ok e =>
    rw [hparse] at htext
    rw [step_parse_ok hparse, FunctionSession.step_parse_ok htext, functions_store]
    rfl
  | error e =>
    rw [hparse] at htext
    rw [step_parse_error hparse, FunctionSession.step_parse_error htext]
    rfl

theorem step_functions_combine (s : Session) (name other : String) (op : Op) :
    s.functions.step (.combine name other op) =
      ((s.step (.combine name other op)).1.functions,
        (s.step (.combine name other op)).2.reply) := by
  cases hleft : s.tree? name with
  | none =>
    rw [step_combine_none (Or.inl hleft),
      FunctionSession.step_combine_none (Or.inl (function?_functions_none hleft))]
    rfl
  | some left =>
    cases hright : s.tree? other with
    | none =>
      rw [step_combine_none (Or.inr hright),
        FunctionSession.step_combine_none (Or.inr (function?_functions_none hright))]
      rfl
    | some right =>
      rw [step_combine hleft hright, functions_store,
        FunctionSession.step_combine (function?_functions hleft) (function?_functions hright),
        TruthFunction.ofExpr_binary]
      rw [Answer.reply, TruthFunction.ofExpr_binary]

/-- A step does to what the trees say what it does to the trees. -/
theorem step_functions (s : Session) (step : Step) :
    s.functions.step step = ((s.step step).1.functions, (s.step step).2.reply) := by
  cases step with
  | parse name source => exact step_functions_parse s name source
  | combine name other op => exact step_functions_combine s name other op
  | validate source =>
    show (s.functions, Reply.answer (.verdict (s.functions.validate source))) = _
    rw [validate_functions]
    rfl
  | evaluateText source b =>
    show (s.functions, Reply.answer (.ofExcept .value
      (TruthFunction.ofText s.engine source >>= (·.evaluate b)))) = _
    rw [evaluateText_functions, ← reply_ofExcept fun _ => rfl]
    rfl
  | evaluate name b =>
    refine Prod.ext rfl (ask_functions (fun e => ?_) s name)
    rw [TruthFunction.evaluate_ofExpr, reply_ofExcept fun _ => rfl]
  | bind name b =>
    refine Prod.ext rfl (ask_functions (fun e => ?_) s name)
    rw [TruthFunction.bind_ofExpr]
    cases e.bind b with
    | ok bound => rfl
    | error e => rfl
  | table name =>
    refine Prod.ext rfl (ask_functions (fun e => ?_) s name)
    rw [TruthFunction.truthTable_eq]
    rfl
  | display name => exact Prod.ext rfl (ask_functions (fun e => rfl) s name)

/-- Whatever the steps, the replies are the answers with what trees say in the place of trees. -/
theorem run_functions (s : Session) (steps : List Step) :
    s.functions.run steps = (s.run steps).map Answer.reply := by
  induction steps generalizing s with
  | nil => rfl
  | cons step rest ih =>
    rw [FunctionSession.run, step_functions, ih]
    rfl

/-- After a step the tree that it showed, if it was to store one, is under its name, and all other
trees are as they were. -/
theorem tree?_step (s : Session) (step : Step) (name : String) :
    (s.step step).1.tree? name =
      match step.target?, (s.step step).2 with
      | some target, .tree e => if name = target then some e else s.tree? name
      | _, _ => s.tree? name := by
  cases step with
  | parse target source =>
    cases hparse : s.engine.parse source with
    | ok e =>
      rw [step_parse_ok hparse]
      exact tree?_store s target name e
    | error e =>
      rw [step_parse_error hparse]
      rfl
  | combine target other op =>
    cases hleft : s.tree? target with
    | none =>
      rw [step_combine_none (Or.inl hleft)]
      rfl
    | some left =>
      cases hright : s.tree? other with
      | none =>
        rw [step_combine_none (Or.inr hright)]
        rfl
      | some right =>
        rw [step_combine hleft hright]
        exact tree?_store s target name _
  | validate source => rfl
  | evaluateText source b => rfl
  | evaluate other b => rfl
  | bind other b => rfl
  | table other => rfl
  | display other => rfl

/-- A step that fails or stores nothing leaves all trees as they are, and one that stores a tree
changes no other. The answers to all steps can be given without trees: by keeping for each name the
set of variables and the truth function, which come from the tokens of a text, and which two names
combine to the union of the sets with the functions joined at every point. -/
theorem run_refines (engine : Engine) (steps : List Step) :
    (∀ (s : Session) (step : Step) (name : String),
      (s.step step).1.tree? name =
        match step.target?, (s.step step).2 with
        | some target, .tree e => if name = target then some e else s.tree? name
        | _, _ => s.tree? name) ∧
    ((start engine).run steps).map Answer.reply = (FunctionSession.start engine).run steps := by
  refine ⟨tree?_step, ?_⟩
  rw [← run_functions]
  rfl

end Session

end BoolExpr
