import BoolExpr.TruthTable

/-!
A session: one engine and a table of named trees, worked on step by step. A step that fails answers
its failure and changes nothing; a tree is stored by reading it from text or by combining two trees
that are there, and every step concerns the trees stored before it.
-/
namespace BoolExpr

structure Session where
  engine : Engine
  trees : List (String × Expr)

namespace Session

inductive Step where
  | parse (name source : String)
  | validate (source : String)
  | evaluateText (source : String) (bindings : Bindings)
  | evaluate (name : String) (bindings : Bindings)
  | bind (name : String) (bindings : Bindings)
  | combine (name other : String) (op : Op)
  | table (name : String)
  | display (name : String)

inductive Answer where
  | tree (e : Expr)
  | verdict (v : Verdict)
  | value (value : Bool)
  | bindings (b : Bindings)
  | table (t : TruthTable)
  | failure (e : ExprError)
  | noTree
deriving DecidableEq

def start (engine : Engine) : Session := ⟨engine, []⟩

def tree? (s : Session) (name : String) : Option Expr := s.trees.lookup name

def store (s : Session) (name : String) (e : Expr) : Session :=
  { s with trees := (name, e) :: s.trees }

theorem tree?_store (s : Session) (name other : String) (e : Expr) :
    (s.store name e).tree? other = if other = name then some e else s.tree? other := by
  by_cases h : other = name
  · simp [store, tree?, h]
  · have hne : (other == name) = false := by simpa using h
    simp [store, tree?, List.lookup_cons, h, hne]

def Answer.ofExcept {α : Type} (answer : α → Answer) : Except ExprError α → Answer
  | .ok a => answer a
  | .error e => .failure e

def ask (s : Session) (name : String) (answer : Expr → Answer) : Answer :=
  match s.tree? name with
  | some e => answer e
  | none => .noTree

def step (s : Session) : Step → Session × Answer
  | .parse name source =>
    match s.engine.parse source with
    | .ok e => (s.store name e, .tree e)
    | .error e => (s, .failure e)
  | .validate source => (s, .verdict (s.engine.validate source))
  | .evaluateText source b => (s, .ofExcept .value (s.engine.evaluate source b))
  | .evaluate name b => (s, s.ask name fun e => .ofExcept .value (e.evaluate b))
  | .bind name b =>
    (s, s.ask name fun e => .ofExcept (fun bound => .bindings bound.bindings) (e.bind b))
  | .combine name other op =>
    match s.tree? name, s.tree? other with
    | some left, some right =>
      let e := Expr.binary op left right
      (s.store name e, .tree e)
    | _, _ => (s, .noTree)
  | .table name => (s, s.ask name fun e => .ofExcept .table e.truthTable)
  | .display name => (s, s.ask name .tree)

def run (s : Session) : List Step → List Answer
  | [] => []
  | step :: steps => (s.step step).2 :: (s.step step).1.run steps

end Session

end BoolExpr
