import BrowserPilot.Agent
import BrowserPilot.Proofs.Browser.Teardown
import BrowserPilot.Proofs.Transcript.Numbering

/-! A run by the model's first answer: a question is returned, a plan is refused, or a plan is executed. Only the
last calls the browser. -/
namespace BrowserPilot
open Browser

/-- The model's reaction to the next request. -/
def ChatModel.next? (m : ChatModel) : Option Answer := (m.built.answers.getD []).head?

def Transcript.addResults (t : Transcript) (results : List StepResult) : Transcript :=
  results.foldl (fun t r => t.after (.add (some resultRole) (some r.toJson.compact) (some r.toJson))) t

theorem StepResult.storable_toJson (r : StepResult) :
    Transcript.Storable (some resultRole) (some r.toJson.compact) (some r.toJson) := by
  refine ⟨rfl, r.toJson.isEncodable_compact, ?_⟩
  have hp : ∀ p ∈ [(("action" : Text), Json.str r.action), ("success", .bool r.success)] ++
      (r.data.map fun data => (("data" : Text), Json.str data)).toList ++
      (r.error.map fun error => (("error" : Text), Json.str error)).toList,
      Json.printError? (Json.depthLimit - 1) p.2 = none := by
    intro p hp
    simp only [List.mem_append, List.mem_cons, List.not_mem_nil, or_false, Option.mem_toList,
      Option.map_eq_some_iff] at hp
    rcases hp with ((rfl | rfl) | ⟨text, _, rfl⟩) | ⟨text, _, rfl⟩ <;> rfl
  rw [Option.all_some, toJson, Json.printError?, if_neg (by decide), Json.fieldsError?_eq_none hp]
  rfl

namespace Agent

inductive Resolution
  | asks (text : Text)
  | refuses (defects : List Plan.Defect)
  | executes (plan : Plan)
deriving DecidableEq, Repr

/-- The classification of a reply by the active tools. -/
def resolve (active : List Text) : ModelReply → Except Failure Resolution
  | .question text => .ok (.asks text)
  | .plan raw =>
    match Plan.validate active raw with
    | .error misfit => .error (.misfit misfit)
    | .ok (.rejected defects) => .ok (.refuses defects)
    | .ok (.accepted plan) => .ok (.executes plan)

/-- The classification of the next answer, which does not depend on the message. -/
def resolution (a : Agent) : Except Failure Resolution :=
  (ChatModel.hear a.model.next?).bind fun answer =>
    match ModelReply.ofText answer with
    | .error e => .error (.unreadable answer e)
    | .ok reply => resolve a.active reply

def nextCommands? (a : Agent) : Option (List Command) :=
  match a.resolution with
  | .ok (.executes plan) => some (Command.ofPlan plan)
  | _ => none

/-- The task: the message without the blanks around it. -/
def taskOf (message : Option Text) : Text := Text.strip (message.getD "")

/-- The commands that a run for the message executes, if any. -/
def commandsFor? (a : Agent) (message : Option Text) : Option (List Command) :=
  if (taskOf message).isEncodable then a.nextCommands? else none

/-- The agent after the request for a plan. -/
def asked (a : Agent) (task : Text) : Agent :=
  { a with model := ((ChatModel.ask (Prompt.system a.selection) (Prompt.request task)).run a.model).2 }

/-- The agent after recording a text, if it can be recorded. -/
def noted (a : Agent) (role : String) (text : Text) : Agent :=
  { a with transcript := a.transcript.after (.add (some role) (some text) none) }

/-- The entry for a plan with defects. -/
def refusal (defects : List Plan.Defect) : Text :=
  Text.joinLines ("Invalid action plan:" :: defects.map Plan.Defect.message)

/-- The result of recording a text. -/
def recorded (text : Text) : Except Failure Unit :=
  if text.isEncodable then .ok () else .error (.unrecorded (.unencodable text))

/-- A failure becomes an outcome if it can be recorded. -/
def settled : Except Failure Outcome → Except Failure Outcome
  | .ok outcome => .ok outcome
  | .error f => (recorded ("Error: " ++ f.text)).map fun _ => .error f.text

/-- The agent after recording the failure, if there is one. -/
def closed (a : Agent) : Except Failure Outcome → Agent
  | .ok _ => a
  | .error f => a.noted modelRole ("Error: " ++ f.text)

theorem map_recorded_eq_ok_iff {α : Type} {text : Text} {x y : α} :
    ((recorded text).map fun _ => x) = .ok y ↔ text.isEncodable = true ∧ x = y := by
  cases h : text.isEncodable <;> simp [recorded, h, Except.map]

theorem noted_of_unencodable (a : Agent) (role : String) {text : Text} (h : text.isEncodable = false) :
    a.noted role text = a := by
  rw [noted, Transcript.after, a.transcript.add?_of_unencodable role h]

theorem run_record (role : String) (text : Text) (a : Agent) :
    (record role text none).run a = (recorded text, a.noted role text) := by
  cases ht : text.isEncodable with
  | true =>
    have hs : Transcript.Storable (some ↑role) (some text) none := ⟨by simp, ht, rfl⟩
    simp only [record, ExceptT.run, a.transcript.add_of_storable hs, recorded, ht, if_true, noted]
  | false =>
    rw [noted_of_unencodable a role ht]
    simp [record, ExceptT.run, Transcript.add, a.transcript.add?_of_unencodable role ht, recorded, ht, Except.map]

theorem run_record_pure (role : String) (text : Text) (outcome : Outcome) (a : Agent) :
    (do record role text none; return outcome : Attempt Agent Outcome).run a =
      ((recorded text).map fun _ => outcome, a.noted role text) := by
  rw [Attempt.run_bind, run_record]
  cases recorded text <;> rfl

theorem run_withModel {α : Type} (x : Attempt ChatModel α) (a : Agent) :
    (withModel x).run a = ((x.run a.model).1, { a with model := (x.run a.model).2 }) := rfl

theorem run_withBrowser {α : Type} (x : Attempt Desk α) (a : Agent) :
    (withBrowser x).run a = ((x.run ⟨.nothing, a.log⟩).1, { a with log := (x.run ⟨.nothing, a.log⟩).2.log }) := rfl

theorem run_recordResults (results : List StepResult) (a : Agent) :
    (recordResults results).run a = (.ok (), { a with transcript := a.transcript.addResults results }) := by
  induction results generalizing a with
  | nil => rfl
  | cons r rs ih =>
    have hr : (record resultRole r.toJson.compact (some r.toJson)).run a =
        (.ok (), { a with transcript := a.transcript.addResults [r] }) := by
      simp only [record, ExceptT.run, a.transcript.add_of_storable r.storable_toJson]
      rfl
    rw [recordResults, Attempt.run_bind, hr]
    exact ih _

/-- The execution of an accepted plan: its announcement, its results, and their summary. -/
theorem run_carryOut (w : World) (runner : Runner) (system : Text) (plan : Plan) (a : Agent) :
    (carryOut w runner system plan).run a =
      let executed := (runner.execute w (Command.ofPlan plan)).run ⟨.nothing, a.log⟩
      let begun := { a.noted modelRole "Executing plan..." with log := executed.2.log }
      match executed.1 with
      | .error f => (.error f, begun)
      | .ok results =>
        let heard := (Summary.ofResults system results).run a.model
        let told := { begun with transcript := begun.transcript.addResults results, model := heard.2 }
        match heard.1 with
        | .error f => (.error f, told)
        | .ok summary => ((recorded summary).map fun _ => .results results summary, told.noted modelRole summary) := by
  have hb : recorded "Executing plan..." = .ok () := rfl
  rw [carryOut, Attempt.run_bind, run_record, hb]
  simp only [Attempt.run_bind _ (fun _ => Bind.bind _ _), run_withBrowser, run_recordResults, run_withModel, noted]
  cases ((runner.execute w (Command.ofPlan plan)).run ⟨.nothing, a.log⟩).1 with
  | error f => rfl
  | ok results =>
    dsimp only
    cases ((Summary.ofResults system results).run a.model).1 with
    | error f => rfl
    | ok summary => exact run_record_pure modelRole summary _ _

theorem run_pursue (w : World) (runner : Runner) (task : Text) (a : Agent) :
    (pursue w runner task).run a =
      match a.resolution with
      | .error f => (.error f, a.asked task)
      | .ok (.asks text) =>
        ((recorded text).map fun _ => .clarification text, (a.asked task).noted modelRole text)
      | .ok (.refuses defects) =>
        ((recorded (refusal defects)).map fun _ => .invalidPlan defects,
          (a.asked task).noted modelRole (refusal defects))
      | .ok (.executes plan) => (carryOut w runner (Prompt.system a.selection) plan).run (a.asked task) := by
  have hg : (get : Attempt Agent Agent).run a = (.ok a, a) := rfl
  have ha : ((ChatModel.ask (Prompt.system a.selection) (Prompt.request task)).run a.model).1 =
      ChatModel.hear a.model.next? := rfl
  simp only [pursue, Attempt.run_bind, hg, run_withModel, ha, resolution]
  cases ChatModel.hear a.model.next? with
  | error f => rfl
  | ok answer =>
    simp only [Except.bind]
    cases ModelReply.ofText answer with
    | error e => rfl
    | ok reply =>
      cases reply with
      | question text => exact run_record_pure modelRole text _ _
      | plan raw =>
        -- the tools are looked up again once the model has answered, and are still the same
        have hv : (get : Attempt Agent Agent).run (a.asked task) = (.ok (a.asked task), a.asked task) := rfl
        have hs : (a.asked task).active = a.active := rfl
        simp only [follow, resolve]
        rw [← asked, Attempt.run_bind, hv]
        simp only [hs]
        cases Plan.validate a.active raw with
        | error misfit => rfl
        | ok verdict =>
          cases verdict with
          | rejected defects => exact run_record_pure modelRole (refusal defects) _ _
          | accepted plan => rfl

/-- A task that cannot be encoded fails the run before anything else happens. -/
theorem run_of_unencodable (w : World) (runner : Runner) {message : Option Text} (a : Agent)
    (h : (taskOf message).isEncodable = false) :
    a.run w runner message = (.error (.unrecorded (.unencodable (taskOf message))), a) := by
  rw [run, ← taskOf, attend, Attempt.run_bind, run_record, noted_of_unencodable a _ h, recorded, h]
  rfl

theorem run_of_encodable (w : World) (runner : Runner) {message : Option Text} (a : Agent)
    (h : (taskOf message).isEncodable = true) :
    a.run w runner message =
      let pursued := (pursue w runner (taskOf message)).run (a.noted userRole (taskOf message))
      (settled pursued.1, pursued.2.closed pursued.1) := by
  rw [run, ← taskOf, attend, Attempt.run_bind, run_record, recorded, if_pos h]
  dsimp only
  rw [Attempt.run_bind, Attempt.run_result]
  cases (pursue w runner (taskOf message)).run (a.noted userRole (taskOf message)) with
  | mk result b =>
    cases result with
    | ok outcome => rfl
    | error f => exact run_record_pure modelRole _ _ _

theorem log_carryOut (w : World) (runner : Runner) (system : Text) (plan : Plan) (a : Agent) :
    ((carryOut w runner system plan).run a).2.log =
      ((runner.execute w (Command.ofPlan plan)).run ⟨.nothing, a.log⟩).2.log := by
  rw [run_carryOut]
  dsimp only
  split
  · rfl
  · split <;> rfl

theorem log_pursue (w : World) (runner : Runner) (task : Text) (a : Agent) :
    ((pursue w runner task).run a).2.log = runner.logAfter w a.log a.nextCommands? := by
  rw [run_pursue, nextCommands?]
  cases a.resolution with
  | error f => rfl
  | ok resolution =>
    cases resolution with
    | asks text => rfl
    | refuses defects => rfl
    | executes plan => exact log_carryOut w runner _ plan (a.asked task)

@[simp] theorem log_closed (a : Agent) (result : Except Failure Outcome) : (a.closed result).log = a.log := by
  cases result <;> rfl

/-- The log of a run is that of executing its plan, if one is accepted. -/
theorem log_run (w : World) (runner : Runner) (message : Option Text) (a : Agent) :
    (a.run w runner message).2.log = runner.logAfter w a.log (a.commandsFor? message) := by
  unfold commandsFor?
  cases h : (taskOf message).isEncodable with
  | true =>
    rw [run_of_encodable w runner a h]
    exact (log_closed _ _).trans (log_pursue w runner _ (a.noted userRole (taskOf message)))
  | false =>
    rw [run_of_unencodable w runner a h]
    rfl

end Agent

end BrowserPilot
