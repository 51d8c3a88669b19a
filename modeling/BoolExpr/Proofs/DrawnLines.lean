import BoolExpr.TreeDrawing
import BoolExpr.Proofs.Preorder
import Mathlib.Algebra.Order.Floor.Div

/-!
The lines of a drawn tree. The place of a node is the way to it from the root, a side for each step,
and so is what the guides of its lines say: there is a column for each step, and the last column of
its first line is a fork. A label is cut into pieces of the length that its depth leaves. The
drawing is made up of the lines of one node after the other, in preorder.
-/
namespace BoolExpr

namespace Side

/-- The guide for a step on the way to a place, in all lines but the first one of an operand. -/
def stem : Side → List Char
  | .left => ['│', ' ', ' ', ' ']
  | .right => [' ', ' ', ' ', ' ']

/-- The guide for the last step, in the first line of an operand. -/
def fork : Side → List Char
  | .left => ['├', '─', '─', ' ']
  | .right => ['└', '─', '─', ' ']

def stems (path : List Side) : List Char := path.flatMap stem

def forked : List Side → List Char
  | [] => []
  | [side] => side.fork
  | side :: next :: path => side.stem ++ forked (next :: path)

theorem length_stems (path : List Side) : (stems path).length = 4 * path.length := by
  induction path with
  | nil => rfl
  | cons side path ih =>
    have hstem : side.stem.length = 4 := by cases side <;> rfl
    rw [stems, List.flatMap_cons, List.length_append, hstem, List.length_cons]
    rw [stems] at ih
    omega

theorem newline_notMem_stems (path : List Side) : '\n' ∉ stems path := by
  intro hmem
  obtain ⟨side, -, hside⟩ := List.mem_flatMap.mp hmem
  cases side <;> exact absurd hside (by decide)

theorem newline_notMem_forked (path : List Side) : '\n' ∉ forked path := by
  induction path with
  | nil => exact List.not_mem_nil
  | cons side path ih =>
    cases path with
    | nil => cases side <;> decide
    | cons next path =>
      rw [forked, List.mem_append, not_or]
      exact ⟨by cases side <;> decide, ih⟩

theorem length_forked (path : List Side) : (forked path).length = 4 * path.length := by
  induction path with
  | nil => rfl
  | cons side path ih =>
    cases path with
    | nil => cases side <;> rfl
    | cons next path =>
      have hstem : side.stem.length = 4 := by cases side <;> rfl
      rw [forked, List.length_append, hstem, ih]
      simp only [List.length_cons]
      omega

end Side

/-- What a line shows: the place that it belongs to, whether its guides end in a fork, and a piece
of the label. -/
structure DrawnLine where
  path : List Side
  forks : Bool
  text : List Char

namespace DrawnLine

def below (side : Side) (line : DrawnLine) : DrawnLine := { line with path := side :: line.path }

def read : List Char → DrawnLine
  | '│' :: ' ' :: ' ' :: ' ' :: rest => (read rest).below .left
  | ' ' :: ' ' :: ' ' :: ' ' :: rest => (read rest).below .right
  | '├' :: '─' :: '─' :: ' ' :: rest => ⟨[.left], true, rest⟩
  | '└' :: '─' :: '─' :: ' ' :: rest => ⟨[.right], true, rest⟩
  | text => ⟨[], false, text⟩

end DrawnLine

/-- The signs that guides begin with, and the one that ends a line. -/
def guideSigns : List Char := ['│', ' ', '├', '└', '\n']

def Legible (text : List Char) : Prop := ∀ c ∈ text, c ∉ guideSigns

namespace DrawnLine

variable {text : List Char} {path : List Side}

theorem read_legible (h : Legible text) : read text = ⟨[], false, text⟩ := by
  rw [read]
  all_goals
    rintro rest rfl
    exact absurd (h _ List.mem_cons_self) (by decide)

theorem read_stem (side : Side) (cs : List Char) :
    read (side.stem ++ cs) = (read cs).below side := by
  cases side <;> rfl

theorem read_fork (side : Side) (cs : List Char) :
    read (side.fork ++ cs) = ⟨[side], true, cs⟩ := by
  cases side <;> rfl

theorem read_stems (h : Legible text) (path : List Side) :
    read (Side.stems path ++ text) = ⟨path, false, text⟩ := by
  induction path with
  | nil => exact read_legible h
  | cons side path ih =>
    rw [Side.stems] at ih ⊢
    rw [List.flatMap_cons, List.append_assoc, read_stem, ih]
    rfl

theorem read_forked (h : Legible text) (path : List Side) :
    read (Side.forked path ++ text) = ⟨path, !path.isEmpty, text⟩ := by
  induction path with
  | nil => exact read_legible h
  | cons side path ih =>
    cases path with
    | nil => exact read_fork side text
    | cons next path =>
      rw [Side.forked, List.append_assoc, read_stem, ih]
      rfl

end DrawnLine

namespace Expr

variable {room : Nat} {cs piece : List Char}

theorem flatten_pieces (hroom : 0 < room) (cs : List Char) : (pieces room cs).flatten = cs := by
  induction cs using pieces.induct room with
  | case1 => rw [pieces]; rfl
  | case2 c rest h => omega
  | case3 c rest h ih =>
    rw [pieces, if_neg h, List.flatten_cons, ih, List.cons_append, List.take_append_drop]

theorem length_le_of_mem_pieces (hroom : 0 < room) (h : piece ∈ pieces room cs) :
    piece.length ≤ room := by
  induction cs using pieces.induct room with
  | case1 =>
    rw [pieces] at h
    cases h
  | case2 c rest hzero => omega
  | case3 c rest hzero ih =>
    rw [pieces, if_neg hzero] at h
    rcases List.mem_cons.mp h with rfl | h
    · rw [List.length_cons, List.length_take]
      omega
    · exact ih h

/-- The number of pieces is the length of the text divided by the room, rounded up. -/
theorem length_pieces (hroom : 0 < room) (cs : List Char) :
    (pieces room cs).length = cs.length ⌈/⌉ room := by
  simp only [Nat.ceilDiv_eq_add_pred_div]
  induction cs using pieces.induct room with
  | case1 =>
    have hzero : (0 + room - 1) / room = 0 := Nat.div_eq_of_lt (by omega)
    rw [pieces]
    exact hzero.symm
  | case2 c rest hzero => omega
  | case3 c rest hzero ih =>
    rw [pieces, if_neg hzero, List.length_cons, ih, List.length_cons, List.length_drop]
    have hsum : rest.length + 1 + room - 1 = rest.length + room := by omega
    rw [hsum, Nat.add_div_right _ hroom]
    by_cases hlength : room - 1 ≤ rest.length
    · have hdrop : rest.length - (room - 1) + room - 1 = rest.length := by omega
      rw [hdrop]
    · rw [Nat.div_eq_of_lt (by omega), Nat.div_eq_of_lt (by omega)]

theorem labelLines_zero (head continued text : List Char) :
    labelLines 0 head continued text = [] := by
  cases text <;> simp [labelLines, pieces]

end Expr

structure Place where
  path : List Side
  tree : Expr

namespace Place

def below (side : Side) (p : Place) : Place := { p with path := side :: p.path }

/-- The lines of one node, where the guides of the whole tree are `head` and `continued`. -/
def linesWithin (room : Nat) (head continued : List Char) (p : Place) : List (List Char) :=
  Expr.labelLines (room - 4 * p.path.length)
    (if p.path = [] then head else continued ++ Side.forked p.path)
    (continued ++ Side.stems p.path) p.tree.label.toList

def block (p : Place) : List String := (p.linesWithin 80 [] []).map String.ofList

theorem linesWithin_below (room : Nat) (head continued : List Char) (side : Side) (p : Place) :
    (p.below side).linesWithin room head continued =
      p.linesWithin (room - 4) (continued ++ side.fork) (continued ++ side.stem) := by
  obtain ⟨path, tree⟩ := p
  have hroom : ∀ n, room - 4 * (n + 1) = room - 4 - 4 * n := fun n => by omega
  cases path <;> simp [linesWithin, below, Side.forked, Side.stems, hroom]

end Place

namespace Expr

def places : Expr → List Place
  | .literal value => [⟨[], .literal value⟩]
  | .var name => [⟨[], .var name⟩]
  | .binary op left right => ⟨[], .binary op left right⟩ ::
      (left.places.map (Place.below .left) ++ right.places.map (Place.below .right))

theorem map_tree_places (e : Expr) : e.places.map Place.tree = e.preorder := by
  induction e with
  | literal value => rfl
  | var name => rfl
  | binary op left right ihl ihr =>
    rw [places, preorder, List.map_cons, List.map_append, List.map_map, List.map_map, ← ihl, ← ihr]
    rfl

theorem linesWithin_root (room : Nat) (head continued : List Char) (e : Expr) :
    Place.linesWithin room head continued ⟨[], e⟩ =
      labelLines room head continued e.label.toList := by
  simp [Place.linesWithin, Side.stems]

theorem linesWithin_zero (head continued : List Char) (e : Expr) :
    e.linesWithin 0 head continued = [] := by
  cases e <;> simp [linesWithin]

theorem linesWithin_leaf {e : Expr} (h : ∀ op left right, e ≠ .binary op left right) (room : Nat)
    (head continued : List Char) :
    e.linesWithin room head continued = labelLines room head continued e.label.toList := by
  rw [linesWithin]
  · split
    · rename_i hroom
      rw [hroom, labelLines_zero]
    · exact List.append_nil _
  · exact h

/-- The lines of a tree are those of its nodes, in preorder. -/
theorem linesWithin_eq (room : Nat) (head continued : List Char) (e : Expr) :
    e.linesWithin room head continued =
      e.places.flatMap (Place.linesWithin room head continued) := by
  induction e generalizing room head continued with
  | literal value =>
    rw [linesWithin_leaf (fun _ _ _ => Expr.noConfusion), places, List.flatMap_singleton,
      linesWithin_root]
  | var name =>
    rw [linesWithin_leaf (fun _ _ _ => Expr.noConfusion), places, List.flatMap_singleton,
      linesWithin_root]
  | binary op left right ihl ihr =>
    have hbelow : ∀ (side : Side) (e : Expr),
        (e.places.map (Place.below side)).flatMap (Place.linesWithin room head continued) =
          e.places.flatMap
            (Place.linesWithin (room - 4) (continued ++ side.fork) (continued ++ side.stem)) := by
      intro side e
      rw [List.flatMap_map]
      exact congrArg e.places.flatMap
        (funext fun p => p.linesWithin_below room head continued side)
    rw [places, List.flatMap_cons, List.flatMap_append, hbelow, hbelow, ← ihl, ← ihr,
      linesWithin_root, linesWithin]
    split
    · rename_i hroom
      rw [hroom, labelLines_zero, Nat.zero_sub, linesWithin_zero, linesWithin_zero]
      rfl
    · rfl

theorem drawing_eq (e : Expr) : e.drawing = (e.places.map Place.block).flatten := by
  rw [drawing, linesWithin_eq, List.map_flatMap, List.flatMap_def]
  rfl

end Expr

/-- The lines of one node: as many as its label takes at its depth, and none of them too wide. Each
of them shows the place of the node, only the first one has a fork, and all together show the label.
-/
structure IsBlock (p : Place) (block : List String) : Prop where
  count : block.length = p.tree.label.length ⌈/⌉ (80 - 4 * p.path.length)
  width : ∀ line ∈ block, line.length ≤ 80
  unbroken : ∀ line ∈ block, '\n' ∉ line.toList
  path : ∀ line ∈ block, (DrawnLine.read line.toList).path = p.path
  forks : ∀ i line, block[i]? = some line →
    ((DrawnLine.read line.toList).forks = true ↔ i = 0 ∧ p.path ≠ [])
  text : (block.flatMap fun line => (DrawnLine.read line.toList).text) = p.tree.label.toList

namespace Place

variable {p : Place} {first : List Char} {more : List (List Char)}

theorem block_of_pieces
    (h : Expr.pieces (80 - 4 * p.path.length) p.tree.label.toList = first :: more) :
    p.block = String.ofList (Side.forked p.path ++ first) ::
      more.map fun piece => String.ofList (Side.stems p.path ++ piece) := by
  have hhead : (if p.path = [] then [] else [] ++ Side.forked p.path) = Side.forked p.path := by
    split
    · rename_i hpath
      rw [hpath]
      rfl
    · rfl
  rw [block, linesWithin, hhead, Expr.labelLines, h, List.map_cons, List.map_map]
  rfl

section Pieces

variable (hroom : 0 < 80 - 4 * p.path.length)
  (hpieces : Expr.pieces (80 - 4 * p.path.length) p.tree.label.toList = first :: more)

include hroom hpieces

theorem legible_piece (hlegible : Legible p.tree.label.toList) :
    ∀ piece ∈ first :: more, Legible piece := by
  intro piece hpiece c hc
  have hmem : c ∈ (first :: more).flatten := List.mem_flatten.mpr ⟨piece, hpiece, hc⟩
  rw [← hpieces, Expr.flatten_pieces hroom] at hmem
  exact hlegible c hmem

/-- What the lines of a node show, piece by piece. -/
theorem map_read_block (hlegible : Legible p.tree.label.toList) :
    (p.block.map fun line => DrawnLine.read line.toList) =
      ⟨p.path, !p.path.isEmpty, first⟩ :: more.map fun piece => ⟨p.path, false, piece⟩ := by
  have hlegible := legible_piece hroom hpieces hlegible
  rw [block_of_pieces hpieces, List.map_cons, List.map_map]
  congr 1
  · rw [String.toList_ofList, DrawnLine.read_forked (hlegible first (by simp))]
  · refine List.map_congr_left fun piece hpiece => ?_
    rw [Function.comp_apply, String.toList_ofList,
      DrawnLine.read_stems (hlegible piece (List.mem_cons_of_mem _ hpiece))]

theorem length_le_of_mem_block : ∀ line ∈ p.block, line.length ≤ 80 := by
  have hlength : ∀ piece ∈ first :: more, 4 * p.path.length + piece.length ≤ 80 := by
    intro piece hpiece
    have hpiece := Expr.length_le_of_mem_pieces hroom (hpieces ▸ hpiece)
    omega
  intro line hline
  rw [block_of_pieces hpieces] at hline
  rcases List.mem_cons.mp hline with rfl | hline
  · rw [String.length_ofList, List.length_append, Side.length_forked]
    exact hlength first (by simp)
  · obtain ⟨piece, hpiece, rfl⟩ := List.mem_map.mp hline
    rw [String.length_ofList, List.length_append, Side.length_stems]
    exact hlength piece (List.mem_cons_of_mem _ hpiece)

theorem newline_notMem_of_mem_block (hlegible : Legible p.tree.label.toList) :
    ∀ line ∈ p.block, '\n' ∉ line.toList := by
  have hlegible := legible_piece hroom hpieces hlegible
  have hnewline : ∀ piece ∈ first :: more, '\n' ∉ piece := fun piece hpiece hmem =>
    hlegible piece hpiece _ hmem (by decide)
  intro line hline
  rw [block_of_pieces hpieces] at hline
  rcases List.mem_cons.mp hline with rfl | hline
  · rw [String.toList_ofList, List.mem_append, not_or]
    exact ⟨Side.newline_notMem_forked p.path, hnewline first (by simp)⟩
  · obtain ⟨piece, hpiece, rfl⟩ := List.mem_map.mp hline
    rw [String.toList_ofList, List.mem_append, not_or]
    exact ⟨Side.newline_notMem_stems p.path, hnewline piece (List.mem_cons_of_mem _ hpiece)⟩

end Pieces

theorem isBlock_block (hdepth : p.path.length ≤ 19) (hne : p.tree.label ≠ "")
    (hlegible : Legible p.tree.label.toList) : IsBlock p p.block := by
  have hroom : 0 < 80 - 4 * p.path.length := by omega
  have hflatten := Expr.flatten_pieces hroom p.tree.label.toList
  obtain ⟨first, more, hpieces⟩ : ∃ first more,
      Expr.pieces (80 - 4 * p.path.length) p.tree.label.toList = first :: more := by
    refine List.exists_cons_of_ne_nil fun hnil => hne ?_
    rw [hnil] at hflatten
    exact String.toList_eq_nil_iff.mp hflatten.symm
  have hread := map_read_block hroom hpieces hlegible
  constructor
  · have hlength := Expr.length_pieces hroom p.tree.label.toList
    rw [hpieces, String.length_toList] at hlength
    rw [← hlength, block_of_pieces hpieces, List.length_cons, List.length_cons, List.length_map]
  · exact length_le_of_mem_block hroom hpieces
  · exact newline_notMem_of_mem_block hroom hpieces hlegible
  · intro line hline
    have hmem := List.mem_map_of_mem (f := fun line => DrawnLine.read line.toList) hline
    rw [hread] at hmem
    rcases List.mem_cons.mp hmem with hfirst | hmem
    · rw [hfirst]
    · obtain ⟨piece, -, hpiece⟩ := List.mem_map.mp hmem
      rw [← hpiece]
  · intro i line hline
    have hget := congrArg (Option.map fun line => DrawnLine.read line.toList) hline
    rw [← List.getElem?_map, hread, Option.map_some] at hget
    cases i with
    | zero =>
      obtain hfirst := Option.some.inj hget
      rw [← hfirst]
      simp
    | succ i =>
      rw [List.getElem?_cons_succ, List.getElem?_map] at hget
      obtain ⟨piece, -, hpiece⟩ := Option.map_eq_some_iff.mp hget
      rw [← hpiece]
      simp
  · rw [← List.flatMap_map, hread, List.flatMap_cons, List.flatMap_map, ← hflatten, hpieces,
      List.flatten_cons, List.flatten_eq_flatMap]
    rfl

end Place

end BoolExpr
