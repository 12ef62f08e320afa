import BrowserPilot.Agent
import BrowserPilot.Service.Page.Markup
import BrowserPilot.Service.Response

/-! The HTTP service: routes, answers and the shared agent. -/
namespace BrowserPilot.Service
open Browser

structure Request where
  method : Text
  target : Text
  body : List UInt8
  /-- The `Origin` header, if there is one. -/
  origin : Option Text
deriving DecidableEq, Repr

/-- All tools, the active ones, and the descriptions of all tools. -/
def toolsJson (a : Agent) : Json :=
  .obj [("available", .arr (Tool.names.map .str)), ("enabled", .arr (a.active.map .str)),
    ("descriptions", .obj (Tool.all.map fun t => (t.name, .str t.description)))]

def Response.ofOutcome : Except Failure Outcome → Response
  | .ok outcome => .ok outcome.toJson
  | .error _ => .failed

def Response.ofExecution : Except Failure (List StepResult) → Response
  | .ok results => .ok (.obj [("results", .arr (results.map StepResult.toJson))])
  | .error _ => .failed

def converse (w : World) (runner : Runner) (a : Agent) (message : Text) : Response × Agent :=
  let (outcome, a) := a.run w runner (some message)
  (.ofOutcome outcome, a)

/-- Validates the plan of a payload. Without a list of tools all are enabled. -/
def judge (p : PlanPayload) : Except Plan.Misfit Plan.Verdict :=
  Plan.validate (p.enabled.getD Tool.names) p.plan

/-- Validates the plan of a payload and executes it if it is accepted. -/
def executePlan (w : World) (runner : Runner) (a : Agent) (p : PlanPayload) : Response × Agent :=
  match judge p with
  | .error _ => (.failed, a)
  | .ok (.rejected defects) =>
    (.refusal 422 (.obj [("errors", .arr (defects.map fun d => .str d.message))]), a)
  | .ok (.accepted plan) =>
    let (results, a) := (Agent.withBrowser (runner.execute w (Command.ofPlan plan))).run a
    (.ofExecution results, a)

def withPayload (payload : Except PayloadError α) (a : Agent) (f : α → Response × Agent) : Response × Agent :=
  match payload with
  | .ok p => f p
  | .error e => (.ofPayloadError e, a)

/-- Handles a request for a route. -/
def follow (w : World) (runner : Runner) (a : Agent) (body : List UInt8) : Route → Response × Agent
  | .listTools => (.ok (toolsJson a), a)
  | .selectTools =>
    withPayload (textsPayload "enabled_tools" body) a fun tools =>
      (.ok (.obj [("enabled", .arr ((a.select tools).active.map .str))]), a.select tools)
  | .submit => withPayload (textPayload "text" body) a (converse w runner a)
  | .load => withPayload (textPayload "content" body) a (converse w runner a)
  | .validate =>
    withPayload (planPayload body) a fun p =>
      match judge p with
      | .ok verdict => (.ok verdict.toJson, a)
      | .error _ => (.failed, a)
  | .execute => withPayload (planPayload body) a (executePlan w runner a)
  | .exportTranscript =>
    match a.transcript.toMarkdown with
    | .ok text => (.markdown text, a)
    | .error _ => (.failed, a)
  | .clearHistory => (.ok (.obj [("ok", .bool true)]), a.clear)
  | .describe => (.ok Description.document, a)
  | .page p => (⟨200, .html p.markup⟩, a)

def handle (w : World) (runner : Runner) (r : Request) (a : Agent) : Response × Agent :=
  match Route.find r.method r.target with
  | .ok route => follow w runner a r.body route
  | .error e => (.ofRouteError e, a)

theorem handle_of_find {w : World} {runner : Runner} {r : Request} {a : Agent} {route : Route}
    (h : Route.find r.method r.target = .ok route) : handle w runner r a = follow w runner a r.body route := by
  rw [handle, h]

/-- The `Access-Control-Allow-Origin` header: the origin of the request, if it is allowed. An answer 500 has none. -/
def allowedOrigin (allowed : List Text) (r : Request) (response : Response) : Option Text :=
  if response.status == 500 then none else r.origin.filter allowed.contains

end BrowserPilot.Service
