import BoolExpr.Proofs.Preorder

/-!
Walks over a tree with a stack of subtrees that are still to be visited. The walk that makes the
flat table adds the row of an operator before it knows where its operands go: each operand is put on
the stack with the place that is to refer to it, and that place is filled in when the operand comes
off the stack. The walk that collects variables keeps those that it has met. Neither depends on how
deep the tree is, and both find what recursion on the tree finds.
-/
namespace BoolExpr

def Expr.totalSize : List Expr → Nat
  | [] => 0
  | e :: stack => e.size + totalSize stack

inductive Symbol where
  | literal (value : Bool)
  | var (name : String)
  | operator (op : Op)
deriving DecidableEq

/-- A row in the making: the references to its operands come later. -/
structure Draft where
  symbol : Symbol
  left : Option Nat := none
  right : Option Nat := none

namespace Draft

def ofNode : Node → Draft
  | .literal value => { symbol := .literal value }
  | .var name => { symbol := .var name }
  | .binary op left right => ⟨.operator op, some left, some right⟩

/-- The row that a draft has become: one of an operator with both references, or another one without
any. -/
def complete? (d : Draft) : Option Node :=
  match d.symbol, d.left, d.right with
  | .literal value, none, none => some (.literal value)
  | .var name, none, none => some (.var name)
  | .operator op, some left, some right => some (.binary op left right)
  | _, _, _ => none

def refer (side : Side) (j : Nat) (d : Draft) : Draft :=
  match side with
  | .left => { d with left := some j }
  | .right => { d with right := some j }

theorem complete?_ofNode (row : Node) : (ofNode row).complete? = some row := by
  cases row <;> rfl

theorem mapM_complete?_ofNode (rows : List Node) :
    (rows.map ofNode).mapM complete? = some rows := by
  induction rows with
  | nil => rfl
  | cons row rest ih => simp [complete?_ofNode, ih]

/-- The place that is to refer to a subtree; nothing refers to the whole tree. -/
abbrev Origin := Option (Nat × Side)

def patch? (j : Nat) (drafts : List Draft) : Origin → Option (List Draft)
  | none => some drafts
  | some (parent, side) =>
    if parent < drafts.length then some (drafts.modify parent (refer side j)) else none

/-- Adds the rows of the trees on the stack, each with all below it before the next one. -/
def record : List (Expr × Origin) → List Draft → Option (List Draft)
  | [], drafts => some drafts
  | (.literal value, origin) :: stack, drafts => do
    let patched ← patch? drafts.length drafts origin
    record stack (patched ++ [{ symbol := .literal value }])
  | (.var name, origin) :: stack, drafts => do
    let patched ← patch? drafts.length drafts origin
    record stack (patched ++ [{ symbol := .var name }])
  | (.binary op left right, origin) :: stack, drafts => do
    let i := drafts.length
    let patched ← patch? i drafts origin
    record ((left, some (i, .left)) :: (right, some (i, .right)) :: stack)
      (patched ++ [{ symbol := .operator op }])
termination_by stack => Expr.totalSize (stack.map Prod.fst)
decreasing_by
  all_goals
    simp only [List.map_cons, Expr.totalSize, Expr.size]
    omega

variable {drafts patched : List Draft} {origin : Origin} {i j : Nat} {side : Side}

theorem length_of_patch? (h : patch? j drafts origin = some patched) :
    patched.length = drafts.length := by
  unfold patch? at h
  split at h
  · rw [Option.some.inj h]
  · split at h
    · rw [← Option.some.inj h, List.length_modify]
    · cases h

/-- The row right behind `drafts` is filled in. -/
theorem patch?_append_cons (hi : drafts.length = i) (d : Draft) (more : List Draft) :
    patch? j (drafts ++ d :: more) (some (i, side)) =
      some (drafts ++ d.refer side j :: more) := by
  subst hi
  have hinside : drafts.length < (drafts ++ d :: more).length := by simp
  have hmodify : (drafts ++ d :: more).modify drafts.length (refer side j) =
      drafts ++ d.refer side j :: more := by
    rw [List.modify_eq_take_cons_drop hinside, List.take_left]
    simp
  rw [patch?, if_pos hinside, hmodify]

/-- A tree on top of the stack is referred to from its origin, and all of its rows come next. -/
theorem record_cons (e : Expr) (origin : Origin) (stack : List (Expr × Origin))
    (drafts : List Draft) :
    record ((e, origin) :: stack) drafts = (do
      let patched ← patch? drafts.length drafts origin
      record stack (patched ++ (e.rowsFrom drafts.length).map ofNode)) := by
  induction e generalizing origin stack drafts with
  | literal value => rw [record]; rfl
  | var name => rw [record]; rfl
  | binary op left right ihl ihr =>
    rw [record]
    cases hpatch : patch? drafts.length drafts origin with
    | none => rfl
    | some patched =>
      have hlength := length_of_patch? hpatch
      -- the row of the operator when it is added, with the left reference, and with both
      let bare : Draft := { symbol := .operator op }
      let half : Draft := { symbol := .operator op, left := some (drafts.length + 1) }
      let root := Node.binary op (drafts.length + 1) (drafts.length + 1 + left.size)
      let below := (left.rowsFrom (drafts.length + 1)).map ofNode
      have hbare : (patched ++ [bare]).length = drafts.length + 1 := by
        rw [List.length_append, hlength]
        rfl
      have hbelow : (patched ++ half :: below).length = drafts.length + 1 + left.size := by
        rw [List.length_append, List.length_cons, List.length_map, Expr.length_rowsFrom, hlength]
        omega
      have hleft : patch? (drafts.length + 1) (patched ++ [bare]) (some (drafts.length, .left)) =
          some (patched ++ [half]) := patch?_append_cons hlength bare []
      have hright : patch? (drafts.length + 1 + left.size) (patched ++ half :: below)
          (some (drafts.length, .right)) = some (patched ++ ofNode root :: below) :=
        patch?_append_cons hlength half below
      change record ((left, some (drafts.length, .left)) :: _) (patched ++ [bare]) = _
      rw [ihl, hbare, hleft]
      change record ((right, some (drafts.length, .right)) :: stack)
        (patched ++ [half] ++ below) = _
      rw [List.append_assoc, List.singleton_append, ihr, hbelow, hright]
      change record stack (patched ++ ofNode root :: below ++ _) = _
      rw [Expr.rowsFrom, List.map_cons, List.map_append, List.append_assoc, List.cons_append]
      rfl

end Draft

namespace Expr

def flattenByStack (e : Expr) : Option (List Node) := do
  let drafts ← Draft.record [(e, none)] []
  drafts.mapM Draft.complete?

theorem flattenByStack_eq (e : Expr) : e.flattenByStack = some e.flatten := by
  have hrecord : Draft.record [(e, none)] [] = some (e.flatten.map Draft.ofNode) := by
    rw [Draft.record_cons]
    exact Draft.record.eq_1 _
  rw [flattenByStack, hrecord]
  exact Draft.mapM_complete?_ofNode e.flatten

def collectFrom : List Expr → NameSet → NameSet
  | [], names => names
  | .literal _ :: stack, names => collectFrom stack names
  | .var name :: stack, names => collectFrom stack (names.insert name)
  | .binary _ left right :: stack, names => collectFrom (left :: right :: stack) names
termination_by stack => totalSize stack
decreasing_by
  all_goals
    simp only [totalSize, size]
    omega

theorem mem_collectFrom {name : String} {stack : List Expr} {names : NameSet} :
    name ∈ collectFrom stack names ↔ name ∈ names ∨ ∃ e ∈ stack, name ∈ e.names := by
  induction stack, names using collectFrom.induct with
  | case1 names => simp [collectFrom]
  | case2 value stack names ih => simp [collectFrom, ih, Expr.names]
  | case3 found stack names ih =>
    rw [collectFrom, ih, NameSet.mem_insert]
    simp [Expr.names, or_assoc, or_left_comm]
  | case4 op left right stack names ih =>
    rw [collectFrom, ih]
    simp [Expr.names, or_assoc]

theorem collectFrom_eq_vars (e : Expr) : collectFrom [e] .empty = e.vars := by
  apply NameSet.ext
  intro name
  simp [mem_collectFrom, mem_vars]

end Expr

end BoolExpr
