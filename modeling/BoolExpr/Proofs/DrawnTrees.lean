import BoolExpr.Proofs.Commands
import BoolExpr.Proofs.DrawnBranches

/-!
Drawn trees, read back. The label of a node is put together from all lines that show its place, and
from labels and places the tree is found again, left and right operands told apart by the guides. A
tree is read in this way from all that the command prints for a text but the last line, so what is
printed before that line is the same for two texts if and only if their trees are.
-/
namespace BoolExpr

theorem legible_name {name : String} (h : Token.IsName name) : Legible name.toList := by
  intro c hc hsign
  have hletter := h.2 c hc
  unfold Token.IsNameChar at hletter
  simp only [guideSigns, List.mem_cons, List.not_mem_nil, or_false] at hsign
  rcases hsign with rfl | rfl | rfl | rfl | rfl <;> exact absurd hletter (by decide)

namespace Expr

def operand? : Side → Expr → Option Expr
  | .left, .binary _ left _ => some left
  | .right, .binary _ _ right => some right
  | _, _ => none

def sub? : List Side → Expr → Option Expr
  | [], e => some e
  | side :: path, e => (e.operand? side).bind (sub? path)

theorem sub?_append (path more : List Side) (e : Expr) :
    e.sub? (path ++ more) = (e.sub? path).bind (sub? more) := by
  induction path generalizing e with
  | nil => rfl
  | cons side path ih =>
    rw [List.cons_append, sub?, sub?, Option.bind_assoc]
    exact congrArg _ (funext ih)

theorem filter_below (side next : Side) (path : List Side) (places : List Place) :
    (places.map (Place.below side)).filter (fun p => p.path = next :: path) =
      if side = next then (places.filter fun p => p.path = path).map (Place.below side)
      else [] := by
  rw [List.filter_map]
  split
  · rename_i hside
    refine congrArg (List.map (Place.below side)) (List.filter_congr fun p _ => ?_)
    simp [Place.below, hside]
  · rename_i hside
    simp [Place.below, hside]

theorem filter_places_root (e : Expr) :
    (e.places.filter fun p => p.path = []) = [⟨[], e⟩] := by
  cases e <;> simp [places, Place.below]

/-- At the end of each way that there is in a tree is one node. -/
theorem filter_places (path : List Side) (e : Expr) :
    (e.places.filter fun p => p.path = path) = ((e.sub? path).map (Place.mk path)).toList := by
  induction path generalizing e with
  | nil => exact filter_places_root e
  | cons side path ih =>
    cases e with
    | literal value => cases side <;> simp [places, sub?, operand?]
    | var name => cases side <;> simp [places, sub?, operand?]
    | binary op left right =>
      rw [places, List.filter_cons_of_neg (by simp), List.filter_append, filter_below,
        filter_below, ih, ih]
      cases side with
      | left =>
        rw [if_pos rfl, if_neg (by decide), List.append_nil]
        show _ = ((left.sub? path).map (Place.mk (.left :: path))).toList
        cases left.sub? path <;> rfl
      | right =>
        rw [if_neg (by decide), if_pos rfl, List.nil_append]
        show _ = ((right.sub? path).map (Place.mk (.right :: path))).toList
        cases right.sub? path <;> rfl

theorem mem_places {path : List Side} {e sub : Expr} (h : e.sub? path = some sub) :
    ⟨path, sub⟩ ∈ e.places := by
  have hmem : (⟨path, sub⟩ : Place) ∈ e.places.filter fun p => p.path = path := by
    rw [filter_places, h]
    exact List.mem_singleton_self _
  exact (List.mem_filter.mp hmem).1

theorem names_subset_of_mem_places {e : Expr} {p : Place} (h : p ∈ e.places) :
    ∀ name ∈ p.tree.names, name ∈ e.names := by
  refine names_subset_of_mem_preorder ?_
  rw [← map_tree_places]
  exact List.mem_map_of_mem h

theorem label_ne_empty {e : Expr} (h : ∀ name ∈ e.names, Token.IsName name) : e.label ≠ "" := by
  cases e with
  | literal value => cases value <;> decide
  | var name => exact (h name (by simp [names])).1
  | binary op left right => cases op <;> simp [label, Op.word]

theorem legible_label {e : Expr} (h : ∀ name ∈ e.names, Token.IsName name) :
    Legible e.label.toList := by
  cases e with
  | literal value => cases value <;> simp [label, Legible, guideSigns]
  | var name => exact legible_name (h name (by simp [names]))
  | binary op left right => cases op <;> simp [label, Op.word, Legible, guideSigns]

section Blocks

variable {e : Expr} (hdepth : ∀ p ∈ e.places, p.path.length ≤ 19)
  (hnames : ∀ name ∈ e.names, Token.IsName name)

include hdepth hnames

theorem isBlock_of_mem_places {p : Place} (hp : p ∈ e.places) : IsBlock p p.block := by
  have htree : ∀ name ∈ p.tree.names, Token.IsName name :=
    fun name hname => hnames name (names_subset_of_mem_places hp name hname)
  exact Place.isBlock_block (hdepth p hp) (label_ne_empty htree) (legible_label htree)

/-- Unless a node is too deep, each of them has its lines in the drawing. -/
theorem forall_isBlock : List.Forall₂ IsBlock e.places (e.places.map Place.block) := by
  rw [List.forall₂_map_right_iff, List.forall₂_same]
  exact fun p hp => isBlock_of_mem_places hdepth hnames hp

theorem newline_notMem_drawing : ∀ line ∈ e.drawing, '\n' ∉ line.toList := by
  intro line hline
  rw [drawing_eq] at hline
  obtain ⟨block, hblock, hmem⟩ := List.mem_flatten.mp hline
  obtain ⟨p, hp, rfl⟩ := List.mem_map.mp hblock
  exact (isBlock_of_mem_places hdepth hnames hp).unbroken line hmem

end Blocks

end Expr

def Symbol.ofLabel : String → Symbol
  | "0" => .literal false
  | "1" => .literal true
  | "AND" => .operator .and
  | "OR" => .operator .or
  | name => .var name

namespace DrawnLine

def labelAt (lines : List DrawnLine) (path : List Side) : String :=
  String.ofList ((lines.filter fun line => line.path = path).flatMap DrawnLine.text)

/-- Reads a tree with a limited number of levels from what lines show. -/
def treeAt? (lines : List DrawnLine) : (levels : Nat) → List Side → Option Expr
  | 0, _ => none
  | levels + 1, path =>
    match Symbol.ofLabel (labelAt lines path) with
    | .literal value => some (.literal value)
    | .var name => if name = "" then none else some (.var name)
    | .operator op => do
      let left ← treeAt? lines levels (path ++ [.left])
      let right ← treeAt? lines levels (path ++ [.right])
      return .binary op left right

/-- Reads a tree from the lines in which it is drawn. So many levels fit into the width. -/
def readTree? (lines : List String) : Option Expr :=
  treeAt? (lines.map fun line => read line.toList) 20 []

theorem ofLabel_name {name : String} (h : Token.IsName name) :
    Symbol.ofLabel name = .var name := by
  rw [Symbol.ofLabel]
  · rintro rfl
    exact absurd (h.2 '0' (by simp)) (by unfold Token.IsNameChar; decide)
  · rintro rfl
    exact absurd (h.2 '1' (by simp)) (by unfold Token.IsNameChar; decide)
  · rintro rfl
    exact absurd (h.2 'A' (by simp)) (by unfold Token.IsNameChar; decide)
  · rintro rfl
    exact absurd (h.2 'O' (by simp)) (by unfold Token.IsNameChar; decide)

/-- The lines of one node count for its place, and for no other one. -/
theorem flatMap_text_block {p : Place} {block : List String} (h : IsBlock p block)
    (path : List Side) :
    (((block.map fun line => read line.toList).filter fun line => line.path = path).flatMap
      DrawnLine.text) = if p.path = path then p.tree.label.toList else [] := by
  split
  · rename_i hpath
    have hall : ∀ line ∈ block.map fun line => read line.toList,
        decide (line.path = path) = true := by
      intro line hline
      obtain ⟨chars, hchars, rfl⟩ := List.mem_map.mp hline
      rw [decide_eq_true_eq, h.path chars hchars, hpath]
    rw [List.filter_eq_self.mpr hall, List.flatMap_map, h.text]
  · rename_i hpath
    have hnone : ∀ line ∈ block.map fun line => read line.toList,
        ¬decide (line.path = path) = true := by
      intro line hline
      obtain ⟨chars, hchars, rfl⟩ := List.mem_map.mp hline
      rw [decide_eq_true_eq, h.path chars hchars]
      exact hpath
    rw [List.filter_eq_nil_iff.mpr hnone, List.flatMap_nil]

theorem flatMap_text_blocks {places : List Place} {blocks : List (List String)}
    (h : List.Forall₂ IsBlock places blocks) (path : List Side) :
    (((blocks.flatten.map fun line => read line.toList).filter fun line =>
      line.path = path).flatMap DrawnLine.text) =
        (places.filter fun p => p.path = path).flatMap fun p => p.tree.label.toList := by
  induction h with
  | nil => rfl
  | @cons p block places blocks hblock h ih =>
    rw [List.flatten_cons, List.map_append, List.filter_append, List.flatMap_append, ih,
      flatMap_text_block hblock, List.filter_cons]
    split
    · rename_i hpath
      rw [if_pos (decide_eq_true hpath), List.flatMap_cons]
    · rename_i hpath
      rw [if_neg (by simpa using hpath), List.nil_append]

variable {e sub : Expr} {path : List Side} {blocks : List (List String)} {levels : Nat}

theorem labelAt_blocks (h : List.Forall₂ IsBlock e.places blocks) (hsub : e.sub? path = some sub) :
    labelAt (blocks.flatten.map fun line => read line.toList) path = sub.label := by
  rw [labelAt, flatMap_text_blocks h, Expr.filter_places, hsub]
  simp

/-- At each place the tree that begins there is read, if the levels are enough. -/
theorem treeAt?_blocks (h : List.Forall₂ IsBlock e.places blocks)
    (hdepth : ∀ p ∈ e.places, p.path.length ≤ 19) (hnames : ∀ name ∈ e.names, Token.IsName name)
    (hsub : e.sub? path = some sub) (hlevels : path.length + levels = 20) :
    treeAt? (blocks.flatten.map fun line => read line.toList) levels path = some sub := by
  induction levels generalizing path sub with
  | zero =>
    have hlength : path.length ≤ 19 := hdepth _ (Expr.mem_places hsub)
    omega
  | succ levels ih =>
    rw [treeAt?, labelAt_blocks h hsub]
    cases sub with
    | literal value => cases value <;> rfl
    | var name =>
      have hmem : name ∈ e.names :=
        Expr.names_subset_of_mem_places (Expr.mem_places hsub) name (List.mem_singleton_self name)
      have hname := hnames name hmem
      rw [Expr.label, ofLabel_name hname]
      exact if_neg hname.1
    | binary op left right =>
      have hleft : e.sub? (path ++ [.left]) = some left := by
        rw [Expr.sub?_append, hsub]
        rfl
      have hright : e.sub? (path ++ [.right]) = some right := by
        rw [Expr.sub?_append, hsub]
        rfl
      have hlength : ∀ side : Side, (path ++ [side]).length + levels = 20 := fun side => by
        rw [List.length_append, List.length_singleton]
        omega
      have hop : Symbol.ofLabel op.word = .operator op := by cases op <;> rfl
      rw [Expr.label, hop]
      simp only [ih hleft (hlength _), ih hright (hlength _)]
      rfl

theorem readTree?_blocks (h : List.Forall₂ IsBlock e.places blocks)
    (hdepth : ∀ p ∈ e.places, p.path.length ≤ 19)
    (hnames : ∀ name ∈ e.names, Token.IsName name) : readTree? blocks.flatten = some e :=
  treeAt?_blocks h hdepth hnames rfl rfl

end DrawnLine

def textLines (printed : String) : List String :=
  ((printed.toList.splitOn '\n').dropLast).map String.ofList

def treePart (printed : String) : List String := (textLines printed).dropLast

section Printing

variable {texts : List String} {e : Expr}

theorem splitOn_lines (h : ∀ t ∈ texts, '\n' ∉ t.toList) :
    (Outcome.lines texts).toList.splitOn '\n' = texts.map String.toList ++ [[]] := by
  induction texts with
  | nil => rfl
  | cons t texts ih =>
    have hchars : (Outcome.lines (t :: texts)).toList =
        t.toList ++ '\n' :: (Outcome.lines texts).toList := by
      simp [Outcome.lines, String.join_cons]
    rw [hchars, List.splitOn_append_cons_self_of_not_mem (h t (by simp)),
      ih fun u hu => h u (List.mem_cons_of_mem t hu)]
    rfl

theorem textLines_lines (h : ∀ t ∈ texts, '\n' ∉ t.toList) :
    textLines (Outcome.lines texts) = texts := by
  rw [textLines, splitOn_lines h, List.dropLast_concat, List.map_map]
  simp

theorem notMem_intercalate {c : Char} {sep : List Char} {texts : List (List Char)}
    (hsep : c ∉ sep) (h : ∀ t ∈ texts, c ∉ t) : c ∉ sep.intercalate texts := by
  induction texts with
  | nil => exact List.not_mem_nil
  | cons t texts ih =>
    have ih := ih fun u hu => h u (List.mem_cons_of_mem t hu)
    have ht : c ∉ t := h t (by simp)
    cases texts with
    | nil => simpa using ht
    | cons u texts =>
      rw [List.intercalate_cons_cons, List.mem_append, List.mem_append]
      simp only [ht, hsep, ih, or_self, not_false_eq_true]

theorem newline_notMem_variablesLine (hnames : ∀ name ∈ e.names, Token.IsName name) :
    '\n' ∉ (Command.variablesLine e).toList := by
  have hlist : '\n' ∉ (String.intercalate ", " e.vars.toList).toList := by
    rw [String.toList_intercalate]
    refine notMem_intercalate (by simp) fun t ht hmem => ?_
    obtain ⟨name, hname, rfl⟩ := List.mem_map.mp ht
    exact legible_name (hnames name (Expr.mem_vars.mp hname)) _ hmem (by decide)
  rw [Command.variablesLine, String.toList_append, List.mem_append, not_or]
  refine ⟨by simp, ?_⟩
  split
  · simp
  · exact hlist

theorem treePart_lines (hdepth : ∀ p ∈ e.places, p.path.length ≤ 19)
    (hnames : ∀ name ∈ e.names, Token.IsName name) :
    treePart (Outcome.lines (e.drawing ++ [Command.variablesLine e])) = e.drawing := by
  rw [treePart, textLines_lines, List.dropLast_concat]
  intro line hline
  rcases List.mem_append.mp hline with hline | hline
  · exact Expr.newline_notMem_drawing hdepth hnames line hline
  · rw [List.mem_singleton.mp hline]
    exact newline_notMem_variablesLine hnames

end Printing

namespace Command

/-- A text is accepted as an expression, no node of which is too deep for the width. -/
structure Drawable (env : List (String × String)) (source : String) (e : Expr) : Prop where
  accepted : ∃ settings, Settings.ofEnvironment env = .ok settings ∧
    settings.engine.parse source = .ok e
  depth : ∀ p ∈ e.places, p.path.length ≤ 19

namespace Drawable

variable {env : List (String × String)} {source : String} {e : Expr}

theorem isName (h : Drawable env source e) : ∀ name ∈ e.names, Token.IsName name := by
  obtain ⟨settings, -, hparse⟩ := h.accepted
  exact fun name hname => Engine.isName_of_parse hparse name (Expr.mem_vars.mpr hname)

/-- What is printed, and what of it is left without the last line. -/
theorem exists_printed (h : Drawable env source e) :
    ∃ printed, (Command.parse source false).run env = .ok ⟨0, printed, ""⟩ ∧
      treePart printed = e.drawing := by
  obtain ⟨settings, henv, hparse⟩ := h.accepted
  refine ⟨Outcome.lines (e.drawing ++ [variablesLine e]), ?_, treePart_lines h.depth h.isName⟩
  rw [run_parse henv, withTree_of_parse hparse]
  rfl

theorem readTree?_drawing (h : Drawable env source e) :
    DrawnLine.readTree? e.drawing = some e := by
  rw [Expr.drawing_eq]
  exact DrawnLine.readTree?_blocks (Expr.forall_isBlock h.depth h.isName) h.depth h.isName

end Drawable

/-- The drawing determines the tree. What is printed before the last line is the layout of the
branches that are made of the tree. It consists of the lines of the nodes in preorder, and the tree
is read from it again. For another text, under whatever settings, the same lines are printed there
if and only if the tree is the same. -/
theorem drawing_faithful {env : List (String × String)} {source : String} {e : Expr}
    (h : Drawable env source e) :
    ∃ (printed : String) (blocks : List (List String)),
      (Command.parse source false).run env = .ok ⟨0, printed, ""⟩ ∧
      treePart printed = Branch.drawing (Branch.ofExpr e) ∧
      treePart printed = blocks.flatten ∧ List.Forall₂ IsBlock e.places blocks ∧
      DrawnLine.readTree? (treePart printed) = some e ∧
      ∀ env' source' e' printed', Drawable env' source' e' →
        (Command.parse source' false).run env' = .ok ⟨0, printed', ""⟩ →
          (treePart printed' = treePart printed ↔ e' = e) := by
  obtain ⟨printed, hrun, htree⟩ := h.exists_printed
  refine ⟨printed, e.places.map Place.block, hrun, ?_, ?_, Expr.forall_isBlock h.depth h.isName,
    ?_, ?_⟩
  · rw [htree, Branch.drawing_ofExpr]
  · rw [htree, Expr.drawing_eq]
  · rw [htree, h.readTree?_drawing]
  · intro env' source' e' printed' h' hrun'
    obtain ⟨again, hagain, htree'⟩ := h'.exists_printed
    obtain rfl : printed' = again :=
      congrArg Outcome.stdout (Except.ok.inj (hrun'.symm.trans hagain))
    rw [htree, htree']
    constructor
    · intro hlines
      have hread := h'.readTree?_drawing
      rw [hlines, h.readTree?_drawing] at hread
      exact (Option.some.inj hread).symm
    · rintro rfl
      rfl

def nameOfLength (n : Nat) : String := String.ofList (List.replicate n 'a')

/-- A name that takes two lines at its depth, and a literal below another operator. -/
theorem drawing_faithful_two_lines :
    Drawable [] (nameOfLength 77 ++ " OR (b AND 0)")
        (.binary .or (.var (nameOfLength 77)) (.binary .and (.var "b") (.literal false))) ∧
      ∃ printed, (Command.parse (nameOfLength 77 ++ " OR (b AND 0)") false).run [] =
          .ok ⟨0, printed, ""⟩ ∧
        treePart printed =
          ["OR", "├── " ++ nameOfLength 76, "│   a", "└── AND", "    ├── b", "    └── 0"] := by
  have hdrawable : Drawable [] (nameOfLength 77 ++ " OR (b AND 0)")
      (.binary .or (.var (nameOfLength 77)) (.binary .and (.var "b") (.literal false))) :=
    ⟨⟨.standard, rfl, by with_unfolding_all rfl⟩, by simp [Expr.places, Place.below]⟩
  obtain ⟨printed, -, hrun, hlayout, -⟩ := drawing_faithful hdrawable
  refine ⟨hdrawable, printed, hrun, ?_⟩
  rw [hlayout, Branch.drawing_ofExpr]
  with_unfolding_all rfl

end Command

end BoolExpr
