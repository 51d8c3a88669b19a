import BoolExpr.Proofs.DrawnLines
import BoolExpr.Proofs.StackWalks

/-!
Trees that are made for drawing. Each node becomes a branch with a label, and the branches of its
operands are added below it, the left one first, when the node comes off a stack. The layout knows
nothing of operands: any number of branches may be below one, and the last of them has a guide that
ends with it. What it makes of these branches is the drawing.
-/
namespace BoolExpr

/-- A label, and the places of the branches below it in a list of branches. -/
structure Branch where
  label : String
  below : List Nat

namespace Branch

def add (parent : Nat) (label : String) (branches : List Branch) : List Branch :=
  branches.modify parent (fun b => { b with below := b.below ++ [branches.length] }) ++
    [⟨label, []⟩]

/-- Adds what is below the trees on the stack, each of which has a branch already. -/
def grow : List (Expr × Nat) → List Branch → List Branch
  | [], branches => branches
  | (.literal _, _) :: stack, branches => grow stack branches
  | (.var _, _) :: stack, branches => grow stack branches
  | (.binary _ left right, i) :: stack, branches =>
    let place := branches.length
    grow ((left, place) :: (right, place + 1) :: stack)
      (add i right.label (add i left.label branches))
termination_by stack => Expr.totalSize (stack.map Prod.fst)
decreasing_by
  all_goals
    simp only [List.map_cons, Expr.totalSize, Expr.size]
    omega

def ofExpr (e : Expr) : List Branch := grow [(e, 0)] [⟨e.label, []⟩]

mutual

def lines (branches : List Branch) (room : Nat) (head continued : List Char) (i : Nat) :
    List (List Char) :=
  if room = 0 then []
  else
    match branches[i]? with
    | none => []
    | some b => Expr.labelLines room head continued b.label.toList ++
        linesBelow branches (room - 4) continued b.below
termination_by (room, 0)
decreasing_by
  exact Prod.Lex.left _ _ (by omega)

/-- The lines of branches below one. The guides of the last one end with it. -/
def linesBelow (branches : List Branch) (room : Nat) (continued : List Char) :
    List Nat → List (List Char)
  | [] => []
  | [last] =>
    lines branches room (continued ++ Side.right.fork) (continued ++ Side.right.stem) last
  | i :: next :: more =>
    lines branches room (continued ++ Side.left.fork) (continued ++ Side.left.stem) i ++
      linesBelow branches room continued (next :: more)
termination_by below => (room, below.length)
decreasing_by
  all_goals
    exact Prod.Lex.right _ (by simp)

end

def drawing (branches : List Branch) : List String := (lines branches 80 [] [] 0).map String.ofList

/-- The branches with all that is below a tree, of which branch `i` is there. -/
def extend : Expr → Nat → List Branch → List Branch
  | .literal _, _, branches => branches
  | .var _, _, branches => branches
  | .binary _ left right, i, branches =>
    let place := branches.length
    extend right (place + 1) (extend left place (add i right.label (add i left.label branches)))

/-- Branch `i` is that of a tree, and those below it are those of the operands, the left one first.
All of these have numbers from `low` on. -/
inductive Shows (branches : List Branch) (low : Nat) : Nat → Expr → Prop
  | leaf {i : Nat} {e : Expr} (hleaf : ∀ op left right, e ≠ .binary op left right)
      (h : branches[i]? = some ⟨e.label, []⟩) : Shows branches low i e
  | binary {i j k : Nat} {op : Op} {left right : Expr} (h : branches[i]? = some ⟨op.word, [j, k]⟩)
      (hj : low ≤ j) (hk : low ≤ k) (hleft : Shows branches low j left)
      (hright : Shows branches low k right) : Shows branches low i (.binary op left right)

variable {branches more : List Branch} {b : Branch} {low i j : Nat} {label : String} {e : Expr}

theorem grow_cons (e : Expr) (i : Nat) (stack : List (Expr × Nat)) (branches : List Branch) :
    grow ((e, i) :: stack) branches = grow stack (extend e i branches) := by
  induction e generalizing i stack branches with
  | literal value => rw [grow, extend]
  | var name => rw [grow, extend]
  | binary op left right ihl ihr => rw [grow, ihl, ihr, extend]

theorem length_add (i : Nat) (label : String) (branches : List Branch) :
    (add i label branches).length = branches.length + 1 := by
  simp [add]

theorem getElem?_add_length (i : Nat) (label : String) (branches : List Branch) :
    (add i label branches)[branches.length]? = some ⟨label, []⟩ := by
  simp [add]

theorem getElem?_add_self (label : String) (h : branches[i]? = some b) :
    (add i label branches)[i]? = some ⟨b.label, b.below ++ [branches.length]⟩ := by
  obtain ⟨hi, hb⟩ := List.getElem?_eq_some_iff.mp h
  rw [add, List.getElem?_append_left (by simpa using hi), List.getElem?_modify_eq, h]
  rfl

theorem getElem?_add_of_ne (h : branches[j]? = some b) (hne : j ≠ i) :
    (add i label branches)[j]? = some b := by
  obtain ⟨hj, hb⟩ := List.getElem?_eq_some_iff.mp h
  rw [add, List.getElem?_append_left (by simpa using hj), List.getElem?_modify, h]
  simp [hne.symm]

/-- Below a branch with nothing below it, two are added. -/
theorem getElem?_add_add (h : branches[i]? = some ⟨label, []⟩) (left right : String) :
    (add i right (add i left branches))[i]? =
        some ⟨label, [branches.length, branches.length + 1]⟩ ∧
      (add i right (add i left branches))[branches.length]? = some ⟨left, []⟩ ∧
      (add i right (add i left branches))[branches.length + 1]? = some ⟨right, []⟩ ∧
      ∀ j b, j ≠ i → branches[j]? = some b → (add i right (add i left branches))[j]? = some b := by
  have hi : i < branches.length := (List.getElem?_eq_some_iff.mp h).1
  have hleft := getElem?_add_length i left branches
  have hright := getElem?_add_length i right (add i left branches)
  have hself := getElem?_add_self right (getElem?_add_self left h)
  rw [length_add] at hright hself
  refine ⟨hself, getElem?_add_of_ne hleft (by omega), hright, fun j b hj hb => ?_⟩
  exact getElem?_add_of_ne (getElem?_add_of_ne hb hj) hj

/-- A tree is still shown when other branches change, and by more branches. -/
theorem Shows.mono (h : Shows branches low i e) {low' : Nat} (hlow : low' ≤ low)
    (hkept : ∀ j b, j = i ∨ low ≤ j → branches[j]? = some b → more[j]? = some b) :
    Shows more low' i e := by
  induction h with
  | leaf hleaf h => exact .leaf hleaf (hkept _ _ (.inl rfl) h)
  | binary h hj hk hleft hright ihl ihr =>
    have hbelow : ∀ n, low ≤ n → ∀ j b, j = n ∨ low ≤ j → branches[j]? = some b →
        more[j]? = some b := by
      rintro n hn j b (rfl | hj) hb
      · exact hkept j b (.inr hn) hb
      · exact hkept j b (.inr hj) hb
    exact .binary (hkept _ _ (.inl rfl) h) (Nat.le_trans hlow hj) (Nat.le_trans hlow hk)
      (ihl (hbelow _ hj)) (ihr (hbelow _ hk))

/-- What is the case once all below a tree is there: the tree is shown by its branch and by new
branches, and no other branch has changed. -/
structure Grown (branches more : List Branch) (i : Nat) (e : Expr) : Prop where
  shows : Shows more branches.length i e
  kept : ∀ j b, j ≠ i → branches[j]? = some b → more[j]? = some b
  length_le : branches.length ≤ more.length

theorem grown_extend (h : branches[i]? = some ⟨e.label, []⟩) :
    Grown branches (extend e i branches) i e := by
  induction e generalizing i branches with
  | literal value =>
    exact ⟨.leaf (fun _ _ _ => Expr.noConfusion) h, fun _ _ _ hb => hb, Nat.le_refl _⟩
  | var name =>
    exact ⟨.leaf (fun _ _ _ => Expr.noConfusion) h, fun _ _ _ hb => hb, Nat.le_refl _⟩
  | binary op left right ihl ihr =>
    have hi : i < branches.length := (List.getElem?_eq_some_iff.mp h).1
    obtain ⟨hparent, hleft, hright, hkept⟩ := getElem?_add_add h left.label right.label
    have hlength : (add i right.label (add i left.label branches)).length =
        branches.length + 2 := by
      rw [length_add, length_add]
    -- all below the left operand is added before the right operand is taken off the stack
    have hl := ihl hleft
    have hr := ihr (hl.kept _ _ (Nat.succ_ne_self _) hright)
    have hlow := hl.length_le
    rw [hlength] at hlow
    refine ⟨.binary ?_ (Nat.le_refl _) (Nat.le_succ _) ?_ ?_, fun j b hj hb => ?_, ?_⟩
    · exact hr.kept _ _ (by omega) (hl.kept _ _ (by omega) hparent)
    · refine hl.shows.mono (by omega) fun j b hj hb => hr.kept j b ?_ hb
      omega
    · exact hr.shows.mono (by omega) fun _ _ _ hb => hb
    · have hlt : j < branches.length := (List.getElem?_eq_some_iff.mp hb).1
      exact hr.kept j b (by omega) (hl.kept j b (by omega) (hkept j b hj hb))
    · exact Nat.le_trans (by omega) hr.length_le

/-- The layout of a tree that is shown is that of the tree. -/
theorem Shows.lines_eq (h : Shows branches low i e) (room : Nat) (head continued : List Char) :
    lines branches room head continued i = e.linesWithin room head continued := by
  induction h generalizing room head continued with
  | leaf hleaf h =>
    rw [lines, Expr.linesWithin_leaf hleaf]
    split
    · rename_i hroom
      rw [hroom, Expr.labelLines_zero]
    · simp only [h]
      rw [linesBelow, List.append_nil]
  | binary h hj hk hleft hright ihl ihr =>
    rw [lines, Expr.linesWithin]
    split
    · rfl
    · simp only [h]
      rw [linesBelow, linesBelow, ihl, ihr]
      rfl

/-- The drawing of a tree is the layout of the branches that are made of it. -/
theorem drawing_ofExpr (e : Expr) : drawing (ofExpr e) = e.drawing := by
  have hgrown : Grown [⟨e.label, []⟩] (extend e 0 [⟨e.label, []⟩]) 0 e := grown_extend rfl
  have hgrow : ofExpr e = extend e 0 [⟨e.label, []⟩] := by
    rw [ofExpr, grow_cons, grow]
  rw [Expr.drawing, drawing, hgrow, hgrown.shows.lines_eq]

end Branch

end BoolExpr
