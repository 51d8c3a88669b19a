import BoolExpr.Proofs.Commands
import BoolExpr.Proofs.JsonReading
import BoolExpr.Proofs.Preorder

/-!
The parse document, read back. A row is found again in its object, by the type of the row and the
fields that go with it, and the tree in the rows. What the command prints for a text is well-formed,
and a reader of it finds the text, the names in order, and the tree.
-/
namespace BoolExpr

def Op.ofWord? : String → Option Op
  | "AND" => some .and
  | "OR" => some .or
  | _ => none

namespace Node

def ofJson? (j : Json) : Option Node := do
  let type ← (← j.field? "node_type").string?
  match type with
  | "literal" => return .literal (← (← j.field? "value").bool?)
  | "variable" => return .var (← (← j.field? "name").string?)
  | "binop" =>
    let op ← Op.ofWord? (← (← j.field? "op").string?)
    let left ← (← (← j.field? "left").integer?).toNat?
    let right ← (← (← j.field? "right").integer?).toNat?
    return .binary op left right
  | _ => none

theorem ofJson?_toJson (row : Node) : ofJson? row.toJson = some row := by
  cases row with
  | literal value => rfl
  | var name => rfl
  | binary op left right => cases op <;> rfl

theorem mapM_ofJson? (rows : List Node) : (rows.map toJson).mapM ofJson? = some rows := by
  induction rows with
  | nil => rfl
  | cons row rows ih =>
    rw [List.map_cons, List.mapM_cons, ofJson?_toJson, ih]
    rfl

theorem plain_toJson (row : Node) : Json.Plain row.toJson := by
  cases row with
  | literal value =>
    refine .object fun m hm => ?_
    simp only [List.mem_cons, List.not_mem_nil, or_false] at hm
    rcases hm with rfl | rfl
    · exact .string _
    · exact .bool value
  | var name =>
    refine .object fun m hm => ?_
    simp only [List.mem_cons, List.not_mem_nil, or_false] at hm
    rcases hm with rfl | rfl <;> exact .string _
  | binary op left right =>
    refine .object fun m hm => ?_
    simp only [List.mem_cons, List.not_mem_nil, or_false] at hm
    rcases hm with rfl | rfl | rfl | rfl
    · exact .string _
    · exact .string _
    · exact .integer _
    · exact .integer _

end Node

/-- What a reader finds in a parse document: the text, the names in increasing order, and rows that
make up the tree. -/
structure Documents (doc : Json) (source : String) (e : Expr) : Prop where
  expression : doc.field? "expression" = some (.string source)
  names : ∃ names : List String, doc.field? "variables" = some (.array (names.map .string)) ∧
    names.Pairwise (· < ·) ∧ ∀ name, name ∈ names ↔ name ∈ e.names
  nodes : ∃ rows, doc.field? "nodes" = some (.array rows) ∧
    (rows.mapM Node.ofJson?).bind Node.decode? = some e

namespace Expr

theorem documents_document (source : String) (e : Expr) :
    Documents (e.document source) source e where
  expression := rfl
  names := ⟨e.vars.toList, rfl, e.vars.increasing, fun _ => mem_vars⟩
  nodes := ⟨e.flatten.map Node.toJson, rfl, by
    rw [Node.mapM_ofJson?, Option.bind_some, Node.decode?_flatten]⟩

theorem plain_document (source : String) (e : Expr) : Json.Plain (e.document source) := by
  refine .object fun m hm => ?_
  simp only [treeMembers, List.mem_cons, List.not_mem_nil, or_false] at hm
  rcases hm with rfl | rfl | rfl
  · exact .string source
  · refine .array fun item hitem => ?_
    obtain ⟨row, -, rfl⟩ := List.mem_map.mp hitem
    exact row.plain_toJson
  · refine .array fun item hitem => ?_
    obtain ⟨name, -, rfl⟩ := List.mem_map.mp hitem
    exact .string name

def printedDocument (source : String) (e : Expr) : String :=
  Outcome.lines [(e.document source).indented]

theorem toList_printedDocument (source : String) (e : Expr) :
    (e.printedDocument source).toList =
      (e.document source).indented.toList ++ (Json.Blanks.newline 0).val := by
  simp [printedDocument, Outcome.lines, Json.Blanks.newline, Json.newline]

theorem isText_printedDocument (source : String) (e : Expr) :
    Json.IsText (e.printedDocument source).toList (e.document source) := by
  rw [toList_printedDocument]
  exact Json.isText_indented (plain_document source e) _

theorem parse?_printedDocument (source : String) (e : Expr) :
    Json.parse? (e.printedDocument source) = some (e.document source) :=
  Json.parse?_of_isText (isText_printedDocument source e)

theorem printedDocument_ne_empty (source : String) (e : Expr) : e.printedDocument source ≠ "" := by
  intro hempty
  have hchars := toList_printedDocument source e
  rw [hempty] at hchars
  exact absurd (List.append_eq_nil_iff.mp hchars.symm).2 (List.cons_ne_nil _ _)

/-- The text that was read is found in the document. -/
theorem source_of_printedDocument_eq {source source' : String} {e e' : Expr}
    (h : e'.printedDocument source' = e.printedDocument source) : source' = source := by
  have hparse := parse?_printedDocument source' e'
  rw [h, parse?_printedDocument] at hparse
  have hdoc : e.document source = e'.document source' := Option.some.inj hparse
  have hfield := (documents_document source e).expression
  rw [hdoc, (documents_document source' e').expression] at hfield
  exact Json.string.inj (Option.some.inj hfield)

end Expr

namespace Command

variable {env : List (String × String)} {settings : Settings} {source : String} {e : Expr}

theorem parseOutcome_json (source : String) (e : Expr) :
    parseOutcome source true e = ⟨0, e.printedDocument source, ""⟩ := rfl

/-- A document is printed for one text only. Where a text is refused nothing is printed. -/
theorem source_of_stdout {outcome : Outcome} {source' : String}
    (hrun : (Command.parse source' true).run env = .ok outcome)
    (h : outcome.stdout = e.printedDocument source) : source' = source := by
  obtain ⟨settings, -, houtcome⟩ := Outcome.map_eq_ok.mp hrun
  cases hparse : settings.engine.parse source' with
  | ok e' =>
    rw [withTree_of_parse hparse, parseOutcome_json] at houtcome
    rw [← houtcome] at h
    exact Expr.source_of_printedDocument_eq h
  | error failure =>
    rw [withTree, hparse] at houtcome
    rw [← houtcome] at h
    exact absurd h.symm (Expr.printedDocument_ne_empty source e)

/-- The parse document can be read back. What is printed for a text that is accepted is JSON by the
grammar, and it is read as an object that holds the text itself, the names in increasing order, and
rows from which the tree is found again. No run of the command prints this for another text, under
whatever settings. -/
theorem document_faithful (henv : Settings.ofEnvironment env = .ok settings)
    (hparse : settings.engine.parse source = .ok e) :
    ∃ printed doc, (Command.parse source true).run env = .ok ⟨0, printed, ""⟩ ∧
      Json.IsText printed.toList doc ∧ Json.parse? printed = some doc ∧ Documents doc source e ∧
      ∀ env' source' outcome, (Command.parse source' true).run env' = .ok outcome →
        outcome.stdout = printed → source' = source := by
  refine ⟨e.printedDocument source, e.document source, ?_, e.isText_printedDocument source,
    e.parse?_printedDocument source, e.documents_document source,
    fun env' source' outcome => source_of_stdout⟩
  rw [run_parse henv, withTree_of_parse hparse, parseOutcome_json]

/-- A text with a tab in it, and a literal that is false. -/
theorem document_faithful_tab :
    Settings.ofEnvironment [] = .ok .standard ∧
      Settings.standard.engine.parse "a\tAND 0" =
        .ok (.binary .and (.var "a") (.literal false)) ∧
      ∃ printed doc, (Command.parse "a\tAND 0" true).run [] = .ok ⟨0, printed, ""⟩ ∧
        Json.IsText printed.toList doc ∧ Json.parse? printed = some doc ∧
        Documents doc "a\tAND 0" (.binary .and (.var "a") (.literal false)) ∧
        ∀ env source outcome, (Command.parse source true).run env = .ok outcome →
          outcome.stdout = printed → source = "a\tAND 0" := by
  have henv : Settings.ofEnvironment [] = .ok .standard := rfl
  have hparse : Settings.standard.engine.parse "a\tAND 0" =
      .ok (.binary .and (.var "a") (.literal false)) := by with_unfolding_all rfl
  exact ⟨henv, hparse, document_faithful henv hparse⟩

end Command

end BoolExpr
