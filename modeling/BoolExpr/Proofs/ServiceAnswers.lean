import BoolExpr.Proofs.ParseDocument
import BoolExpr.Proofs.WrittenQuery
import BoolExpr.Service

/-!
What the service answers and what the commands print. All that a command prints about a text can be
told from the answer of the service to a request on the same text: the document, the verdict and the
value themselves, and of a failure the kind, the message and the place, which its details hold under
names of their own. Every body that the service sends is JSON and can be read back, and for every
text, and all values for variables, there are requests that ask about them.
-/
namespace BoolExpr

namespace ExprError

theorem field?_kind (e : ExprError) : e.detail.field? "kind" = some (.string e.kind) := by
  cases e with
  | malformed e => cases e <;> rfl
  | _ => rfl

theorem field?_message (e : ExprError) : e.detail.field? "message" = some (.string e.message) := by
  cases e with
  | malformed e => cases e <;> rfl
  | _ => rfl

/-- The details of a failure have a position if it lies in one place. -/
theorem field?_position (e : ExprError) :
    e.detail.field? "position" = e.position?.map .integer := by
  cases e with
  | malformed e => cases e <;> rfl
  | _ => rfl

theorem plain_fields (e : ExprError) : ∀ m ∈ e.fields, Json.Plain m.2 := by
  cases e with
  | malformed e => cases e <;> simp [fields, Json.Plain.string, Json.Plain.integer]
  | unboundVariables missing =>
    have hmissing : Json.Plain (.array (missing.toList.map .string)) := by
      refine .array fun item hitem => ?_
      obtain ⟨name, -, rfl⟩ := List.mem_map.mp hitem
      exact .string name
    simpa [fields] using hmissing
  | _ => simp [fields, Json.Plain.string, Json.Plain.integer]

theorem plain_detail (e : ExprError) : Json.Plain e.detail := by
  refine .object fun m hm => ?_
  rcases List.mem_cons.mp hm with rfl | hm
  · exact .string _
  rcases List.mem_cons.mp hm with rfl | hm
  · exact .string _
  · exact e.plain_fields m hm

end ExprError

theorem Verdict.plain_toJson (v : Verdict) : Json.Plain v.toJson := by
  cases v with
  | valid => exact .object (by simp [Json.Plain.bool])
  | invalid e => exact .object (by simp [Json.Plain.bool, e.plain_detail])

namespace Service

variable {settings : Settings} {request : Request} {source path : String} {doc : Json}
  {pairs : List (String × String)}

/-- A request about a text, at one of the places where the text is in the body. The body may be
written in any way, and hold other things besides. -/
structure Asks (request : Request) (path source : String) : Prop where
  path_eq : request.path = path
  method_eq : request.method = "POST"
  body_eq : ∃ doc, Json.IsText request.body.toList doc ∧
    doc.field? "expression" = some (.string source)

theorem readBody_of_isText {body : String} (h : Json.IsText body.toList doc) :
    readBody body = some (some doc) := by
  have hparse : Json.parse? body = some doc := Json.parse?_of_isText h
  have hne : body.isEmpty = false := by
    rw [Bool.eq_false_iff]
    intro hempty
    rw [String.isEmpty_iff.mp hempty] at hparse
    cases hparse
  rw [readBody, hne, hparse]
  rfl

namespace Asks

theorem exists_body (h : Asks request path source) :
    ∃ body, readBody request.body = some body ∧ expression? body = some source := by
  obtain ⟨doc, htext, hfield⟩ := h.body_eq
  refine ⟨some doc, readBody_of_isText htext, ?_⟩
  rw [expression?]
  simp [hfield, Json.string?]

theorem respond_eq {route : Route} (h : Asks request path source)
    (hroute : route? path = some route) (hpost : route ≠ .health) :
    ∃ body, expression? body = some source ∧
      respond settings request = respondAt settings request body route := by
  obtain ⟨body, hbody, hexpression⟩ := h.exists_body
  have hmethod : route.method = "POST" := by
    cases route with
    | health => exact absurd rfl hpost
    | _ => rfl
  refine ⟨body, hexpression, ?_⟩
  rw [respond, h.path_eq, hroute]
  simp only
  rw [h.method_eq, hmethod, if_neg (not_not_intro rfl), if_neg hpost, hbody]

theorem respond_validate (h : Asks request "/v1/validate" source) :
    respond settings request = ok (settings.engine.validate source).toJson := by
  obtain ⟨body, hexpression, hrespond⟩ := h.respond_eq rfl (by decide)
  rw [hrespond, respondAt, answerExpression, hexpression]

theorem respond_parse (h : Asks request "/v1/parse" source) :
    respond settings request = answer (Expr.document source) (settings.engine.parse source) := by
  obtain ⟨body, hexpression, hrespond⟩ := h.respond_eq rfl (by decide)
  rw [hrespond, respondAt, answerExpression, hexpression]

theorem respond_evaluate (h : Asks request "/v1/evaluate" source)
    (hquery : Query.Holds request.query pairs) :
    respond settings request =
      match Bindings.ofRaw pairs with
      | .error e => badRequest e
      | .ok b => answer (fun value => .object [("result", .bool value)])
          (settings.engine.evaluate source b) := by
  obtain ⟨body, hexpression, hrespond⟩ := h.respond_eq rfl (by decide)
  rw [hrespond, respondAt, Query.pairs_of_holds hquery]
  cases Bindings.ofRaw pairs with
  | error e => rfl
  | ok b => simp only [answerExpression, hexpression]

end Asks

end Service

namespace Outcome

open Service

/-- The report of a failure, when only its details are known. -/
def ofDetail? (detail : Json) : Option Outcome := do
  let kind ← (← detail.field? "kind").string?
  let message ← (← detail.field? "message").string?
  return .failed 1 s!"error [{kind}]: {message}"

/-- What validation prints, when only the answer of the service is known. -/
def ofVerdict? (verdict : Json) : Option Outcome := do
  if ← (← verdict.field? "valid").bool? then
    return .success ["valid"]
  let detail ← verdict.field? "error"
  let kind ← (← detail.field? "kind").string?
  let message ← (← detail.field? "message").string?
  let position := (detail.field? "position").bind Json.integer?
  let place := position.elim "" fun p => s!" at position {p}"
  return .failed 1 s!"invalid [{kind}]{place}: {message}"

def ofDocument? (doc : Json) : Option Outcome := some (.success [doc.indented])

def ofResult? (result : Json) : Option Outcome := do
  let value ← (← result.field? "result").bool?
  return .success [if value then "true" else "false"]

/-- What a command prints, when only the answer of the service is known, and how the command shows
the body of an answer that is no failure. -/
def ofResponse? (ofBody? : Json → Option Outcome) (response : Response) : Option Outcome :=
  match response.status, response.body with
  | 200, some body => ofBody? body
  | 400, some body => do ofDetail? (← body.field? "error")
  | _, _ => none

theorem ofDetail?_detail (e : ExprError) : ofDetail? e.detail = some (.refused e) := by
  simp only [ofDetail?, e.field?_kind, e.field?_message]
  rfl

theorem ofVerdict?_toJson (v : Verdict) :
    ofVerdict? v.toJson = some (Command.verdictOutcome v) := by
  cases v with
  | valid => rfl
  | invalid e =>
    have hvalid : (Verdict.invalid e).toJson.field? "valid" = some (.bool false) := rfl
    have herror : (Verdict.invalid e).toJson.field? "error" = some e.detail := rfl
    have hplace : (e.detail.field? "position").bind Json.integer? = e.position? := by
      rw [e.field?_position]
      cases e.position? <;> rfl
    simp only [ofVerdict?, hvalid, herror, e.field?_kind, e.field?_message, hplace,
      Option.bind_eq_bind, Option.bind_some, Json.bool?, Json.string?]
    rfl

theorem ofResponse?_badRequest (ofBody? : Json → Option Outcome) (e : ExprError) :
    ofResponse? ofBody? (badRequest e) = some (.refused e) := by
  have herror : (Json.object [("error", e.detail)]).field? "error" = some e.detail := rfl
  simp only [ofResponse?, badRequest, herror]
  exact ofDetail?_detail e

end Outcome

namespace Service

section

variable {env pairs : List (String × String)} {settings : Settings} {request : Request}
  {source : String} {items : List String}

variable (henv : Settings.ofEnvironment env = .ok settings)

include henv

/-- Validation is always answered with a verdict, and the command prints that. -/
theorem validate_agrees (h : Asks request "/v1/validate" source) :
    ∃ verdict outcome, respond settings request = ok verdict ∧
      (Command.validate source).run env = .ok outcome ∧
      Outcome.ofVerdict? verdict = some outcome :=
  ⟨_, _, h.respond_validate, Command.run_validate henv, Outcome.ofVerdict?_toJson _⟩

/-- The document that the command prints is the one that the service answers with, and a failure is
the same failure. -/
theorem parse_agrees (h : Asks request "/v1/parse" source) :
    ∃ outcome, (Command.parse source true).run env = .ok outcome ∧
      Outcome.ofResponse? Outcome.ofDocument? (respond settings request) = some outcome ∧
      ∀ doc, respond settings request = ok doc ↔ Json.parse? outcome.stdout = some doc := by
  refine ⟨_, Command.run_parse henv true, ?_⟩
  rw [h.respond_parse, Command.withTree]
  cases settings.engine.parse source with
  | ok e =>
    refine ⟨rfl, fun doc => ?_⟩
    simp only [Command.parseOutcome_json, Expr.parse?_printedDocument]
    simp [answer, ok]
  | error e =>
    have hempty : Json.parse? (Outcome.refused e).stdout = none := rfl
    refine ⟨Outcome.ofResponse?_badRequest _ e, fun doc => ?_⟩
    simp [answer, ok, badRequest, hempty]

/-- The command prints the value that the service answers with, when the query holds the pairs that
are in its items, and a failure is the same failure. -/
theorem evaluate_agrees (h : Asks request "/v1/evaluate" source)
    (hquery : Query.Holds request.query pairs) (hitems : Command.splitItems items = .ok pairs) :
    ∃ outcome, (Command.eval source items).run env = .ok outcome ∧
      Outcome.ofResponse? Outcome.ofResult? (respond settings request) = some outcome := by
  rw [h.respond_evaluate hquery]
  cases hraw : Bindings.ofRaw pairs with
  | error e =>
    refine ⟨.refused e, ?_, Outcome.ofResponse?_badRequest _ e⟩
    rw [Command.run, hitems]
    simp only [hraw]
  | ok b =>
    refine ⟨_, Command.run_eval henv hitems hraw, ?_⟩
    dsimp only [Command.evalOutcome]
    cases settings.engine.evaluate source b with
    | ok value => rfl
    | error e => exact Outcome.ofResponse?_badRequest _ e

end

/-- There are requests about every text, with all values for variables. -/
theorem exists_asks (path source : String) (pairs : List (String × String)) :
    ∃ request, Asks request path source ∧ Query.Holds request.query pairs := by
  obtain ⟨query, hquery⟩ := Query.exists_holds pairs
  have hplain : Json.Plain (.object [("expression", .string source)]) :=
    .object (by simp [Json.Plain.string])
  exact ⟨⟨"POST", path, query, Json.compact _⟩,
    ⟨rfl, rfl, _, Json.isText_compact hplain, rfl⟩, hquery⟩

/-- The responses that the service gives: a plain body, or the details of a failure, or a status
alone. -/
inductive Regular : Response → Prop
  | answered {body : Json} (h : Json.Plain body) : Regular (ok body)
  | refused (e : ExprError) : Regular (badRequest e)
  | notFound : Regular notFound
  | wrongMethod : Regular wrongMethod
  | unprocessable : Regular unprocessable

theorem regular_answer {α : Type} {body : α → Json} (h : ∀ a, Json.Plain (body a))
    (x : Except ExprError α) : Regular (answer body x) := by
  cases x with
  | ok a => exact .answered (h a)
  | error e => exact .refused e

theorem regular_answerExpression {respond : String → Response}
    (h : ∀ source, Regular (respond source)) (body : Option Json) :
    Regular (answerExpression body respond) := by
  rw [answerExpression]
  split
  · exact h _
  · exact .unprocessable

theorem regular_respondAt (settings : Settings) (request : Request) (body : Option Json)
    (route : Route) : Regular (respondAt settings request body route) := by
  cases route with
  | health => exact .answered (.object (by simp [Json.Plain.string]))
  | validate =>
    exact regular_answerExpression (fun source => .answered (Verdict.plain_toJson _)) body
  | parse =>
    exact regular_answerExpression
      (fun source => regular_answer (Expr.plain_document source) _) body
  | evaluate =>
    rw [respondAt]
    split
    · exact .refused _
    · refine regular_answerExpression (fun source => regular_answer (fun value => ?_) _) body
      exact .object (by simp [Json.Plain.bool])

theorem regular_respond (settings : Settings) (request : Request) :
    Regular (respond settings request) := by
  rw [respond]
  split
  · exact .notFound
  split
  · exact .wrongMethod
  split
  · exact regular_respondAt settings request none _
  split
  · exact .unprocessable
  · exact regular_respondAt settings request _ _

theorem Regular.readable {response : Response} (h : Regular response) :
    response.status ∈ [200, 400, 404, 405, 422] ∧
      (response.body.isSome ↔ response.status ∈ [200, 400]) ∧
      ∀ body ∈ response.body,
        Json.IsText body.compact.toList body ∧ Json.parse? body.compact = some body := by
  have hread : ∀ {body : Json}, Json.Plain body →
      Json.IsText body.compact.toList body ∧ Json.parse? body.compact = some body :=
    fun hplain => ⟨Json.isText_compact hplain, Json.parse?_of_isText (Json.isText_compact hplain)⟩
  cases h with
  | answered hplain =>
    refine ⟨by simp [ok], by simp [ok], ?_⟩
    rintro _ ⟨⟩
    exact hread hplain
  | refused e =>
    refine ⟨by simp [badRequest], by simp [badRequest], ?_⟩
    rintro _ ⟨⟩
    exact hread (.object (by simp [e.plain_detail]))
  | notFound => exact ⟨by decide, by decide, nofun⟩
  | wrongMethod => exact ⟨by decide, by decide, nofun⟩
  | unprocessable => exact ⟨by decide, by decide, nofun⟩

/-- Whatever is asked, nothing but a good answer or a fault of the request comes of it. There is a
body where the engine had something to say; it is JSON by the grammar, and it is read as what was
meant. -/
theorem respond_readable (settings : Settings) (request : Request) :
    (respond settings request).status ∈ [200, 400, 404, 405, 422] ∧
      ((respond settings request).body.isSome ↔ (respond settings request).status ∈ [200, 400]) ∧
      ∀ body ∈ (respond settings request).body,
        Json.IsText body.compact.toList body ∧ Json.parse? body.compact = some body :=
  (regular_respond settings request).readable

end Service

end BoolExpr
