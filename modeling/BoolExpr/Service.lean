import BoolExpr.Document
import BoolExpr.Json.Reader
import BoolExpr.Service.Query
import BoolExpr.Settings

/-!
The engine as a web service. Expressions come in the JSON body of a request, values for variables
in its query, and answers are JSON. A body that is no JSON is refused before the query is looked
at, and one that lacks the expression after that.
-/
namespace BoolExpr.Service

structure Request where
  method : String
  path : String
  query : String
  body : String

/-- A status, and a body where the service itself has one to give. -/
structure Response where
  status : Nat
  body : Option Json

def ok (body : Json) : Response := ⟨200, some body⟩

def badRequest (e : ExprError) : Response := ⟨400, some (.object [("error", e.detail)])⟩

def notFound : Response := ⟨404, none⟩

def wrongMethod : Response := ⟨405, none⟩

def unprocessable : Response := ⟨422, none⟩

inductive Route where
  | health
  | evaluate
  | parse
  | validate
deriving DecidableEq

def route? : String → Option Route
  | "/health" => some .health
  | "/v1/evaluate" => some .evaluate
  | "/v1/parse" => some .parse
  | "/v1/validate" => some .validate
  | _ => none

def Route.method : Route → String
  | .health => "GET"
  | _ => "POST"

def answer {α : Type} (body : α → Json) : Except ExprError α → Response
  | .ok a => ok (body a)
  | .error e => badRequest e

/-- The value that a body is; an empty body is none, which is not the same as a wrong one. -/
def readBody (body : String) : Option (Option Json) :=
  if body.isEmpty then some none else (Json.parse? body).map some

def expression? (body : Option Json) : Option String := do
  (← (← body).field? "expression").string?

def answerExpression (body : Option Json) (respond : String → Response) : Response :=
  match expression? body with
  | some source => respond source
  | none => unprocessable

def respondAt (settings : Settings) (request : Request) (body : Option Json) : Route → Response
  | .health =>
    ok (.object [("status", .string "ok"), ("version", .string settings.appVersion)])
  | .validate =>
    answerExpression body fun source => ok (settings.engine.validate source).toJson
  | .parse =>
    answerExpression body fun source =>
      answer (Expr.document source) (settings.engine.parse source)
  | .evaluate =>
    match Bindings.ofRaw (Query.pairs request.query) with
    | .error e => badRequest e
    | .ok b =>
      answerExpression body fun source =>
        answer (fun value => .object [("result", .bool value)])
          (settings.engine.evaluate source b)

def respond (settings : Settings) (request : Request) : Response :=
  match route? request.path with
  | none => notFound
  | some route =>
    if request.method ≠ route.method then wrongMethod
    else if route = .health then respondAt settings request none route
    else
      match readBody request.body with
      | none => unprocessable
      | some body => respondAt settings request body route

end BoolExpr.Service
