import BrowserPilot.Browser.Execution
import BrowserPilot.ModelReply
import BrowserPilot.Plan.Validation
import BrowserPilot.Summary
import BrowserPilot.Transcript

/-! The agent, which asks the model for a plan, executes it and keeps the transcript. -/
namespace BrowserPilot
open Browser

inductive Outcome
  | clarification (text : Text)
  | invalidPlan (defects : List Plan.Defect)
  | results (results : List StepResult) (summary : Text)
  | error (message : Text)
deriving DecidableEq, Repr

def Outcome.toJson : Outcome → Json
  | clarification text => .obj [("type", .str "clarification"), ("text", .str text)]
  | invalidPlan defects =>
    .obj [("type", .str "invalid_plan"), ("errors", .arr (defects.map fun d => .str d.message))]
  | results list summary =>
    .obj [("type", .str "results"), ("results", .arr (list.map StepResult.toJson)), ("summary", .str summary)]
  | error message => .obj [("type", .str "error"), ("error", .str message)]

/-- The state that persists between messages: selection, transcript, model and log. -/
structure Agent where
  selection : List Text
  transcript : Transcript
  model : ChatModel
  log : Log

namespace Agent

def new (selection : List Text) (model : ChatModel) : Agent := ⟨selection, .empty, model, []⟩

def active (a : Agent) : List Text := activeTools a.selection

/-- Replaces the selection, which the next run reads. -/
def select (a : Agent) (tools : List Text) : Agent := { a with selection := tools }

/-- Adds an entry to the transcript; an addition that is refused is a failure. -/
def record (role text : Text) (result : Option Json) : Attempt Agent Unit := fun a =>
  match a.transcript.add role text result with
  | .ok t => (.ok (), { a with transcript := t })
  | .error e => (.error (.unrecorded e), a)

def withModel (x : Attempt ChatModel α) : Attempt Agent α := fun a =>
  ((x.run a.model).1, { a with model := (x.run a.model).2 })

def withBrowser (x : Attempt Desk α) : Attempt Agent α := fun a =>
  ((x.run ⟨.nothing, a.log⟩).1, { a with log := (x.run ⟨.nothing, a.log⟩).2.log })

def recordResults : List StepResult → Attempt Agent Unit
  | [] => return
  | r :: rs => do
    record resultRole r.toJson.compact (some r.toJson)
    recordResults rs

/-- Executes an accepted plan, records its results and has them summarised. -/
def carryOut (w : World) (runner : Runner) (system : Text) (plan : Plan) : Attempt Agent Outcome := do
  record modelRole "Executing plan..." none
  let results ← withBrowser (runner.execute w (Command.ofPlan plan))
  recordResults results
  let summary ← withModel (Summary.ofResults system results)
  record modelRole summary none
  return .results results summary

/-- Handles the decoded reply: records a question or a refusal, or executes the plan. -/
def follow (w : World) (runner : Runner) (system : Text) : ModelReply → Attempt Agent Outcome
  | .question text => do
    record modelRole text none
    return .clarification text
  | .plan raw => do
    match Plan.validate (← get).active raw with
    | .error misfit => throw (.misfit misfit)
    | .ok (.rejected defects) =>
      record modelRole (Text.joinLines ("Invalid action plan:" :: defects.map Plan.Defect.message)) none
      return .invalidPlan defects
    | .ok (.accepted plan) => carryOut w runner system plan

def pursue (w : World) (runner : Runner) (task : Text) : Attempt Agent Outcome := do
  let system := Prompt.system (← get).selection
  let answer ← withModel (ChatModel.ask system (Prompt.request task))
  match ModelReply.ofText answer with
  | .error e => throw (.unreadable answer e)
  | .ok reply => follow w runner system reply

/-- Records a failure and returns it as the outcome. -/
def settle (failure : Failure) : Attempt Agent Outcome := do
  record modelRole ("Error: " ++ failure.text) none
  return .error failure.text

def attend (w : World) (runner : Runner) (task : Text) : Attempt Agent Outcome := do
  record userRole task none
  match ← Attempt.result (pursue w runner task) with
  | .ok outcome => return outcome
  | .error failure => settle failure

/-- Handles a message; a missing one counts as empty. The task is recorded before anything can be caught, so a task
that cannot be recorded fails the run. So does a failure whose own entry cannot be recorded. -/
def run (w : World) (runner : Runner) (message : Option Text) (a : Agent) : Except Failure Outcome × Agent :=
  (attend w runner (Text.strip (message.getD ""))).run a

def clear (a : Agent) : Agent := { a with transcript := a.transcript.clear }

inductive Operation
  | run (message : Option Text)
  | select (tools : List Text)
  | replaceModel (answers : List Answer)
  | clear

/-- One operation of an agent, with the outcome if it is a run. -/
def act (w : World) (runner : Runner) (a : Agent) : Operation → Option (Except Failure Outcome) × Agent
  | .run message => let (outcome, a) := a.run w runner message; (some outcome, a)
  | .select tools => (none, a.select tools)
  | .replaceModel answers => (none, { a with model := a.model.replace answers })
  | .clear => (none, a.clear)

end Agent

end BrowserPilot
