import BoolExpr.Expr

/-!
Trees drawn as text, a node on a line below its parent and four columns further right, with guides
that lead to it. A label that does not fit into what is left of the width goes on in lines of its
own in the same column, and a node for which nothing is left of the width has no line.
-/
namespace BoolExpr.Expr

def label : Expr → String
  | .literal true => "1"
  | .literal false => "0"
  | .var name => name
  | .binary op _ _ => op.word

def pieces (room : Nat) : List Char → List (List Char)
  | [] => []
  | c :: rest =>
    if room = 0 then []
    else (c :: rest.take (room - 1)) :: pieces room (rest.drop (room - 1))
termination_by cs => cs.length
decreasing_by simp only [List.length_drop, List.length_cons]; omega

/-- The lines of a label: the first one begins with `head`, the others with `continued`. -/
def labelLines (room : Nat) (head continued : List Char) (text : List Char) : List (List Char) :=
  match pieces room text with
  | [] => []
  | first :: more => (head ++ first) :: more.map (continued ++ ·)

/-- The lines of a tree that has `room` columns after the guides. The guides of its own first line
are `head`, and those of all its other lines are `continued`. -/
def linesWithin (room : Nat) (head continued : List Char) (e : Expr) : List (List Char) :=
  if room = 0 then []
  else
    labelLines room head continued e.label.toList ++
      match e with
      | .binary _ left right =>
        left.linesWithin (room - 4) (continued ++ "├── ".toList) (continued ++ "│   ".toList) ++
          right.linesWithin (room - 4) (continued ++ "└── ".toList) (continued ++ "    ".toList)
      | _ => []

def drawing (e : Expr) : List String := (e.linesWithin 80 [] []).map String.ofList

end BoolExpr.Expr
