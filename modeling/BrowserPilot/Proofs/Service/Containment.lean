import BrowserPilot.Proofs.Agent.Resolution
import BrowserPilot.Proofs.Browser.PageCalls
import BrowserPilot.Service

/-! The page calls over all requests, operations of the agent and unvalidated commands. -/
namespace BrowserPilot.Service
open Browser

/-- A request, an operation of the agent, or the direct execution of a plan. -/
inductive Event
  | request (r : Request)
  | operation (op : Agent.Operation)
  | execution (commands : List Command)

/-- The commands that a request executes, if any. -/
def Request.commands? (a : Agent) (r : Request) : Option (List Command) :=
  match Route.find r.method r.target with
  | .ok .submit => (textPayload "text" r.body).toOption.bind fun message => a.commandsFor? (some message)
  | .ok .load => (textPayload "content" r.body).toOption.bind fun message => a.commandsFor? (some message)
  | .ok .execute =>
    (planPayload r.body).toOption.bind fun p =>
      match judge p with
      | .ok (.accepted plan) => some (Command.ofPlan plan)
      | _ => none
  | _ => none

namespace Event

def apply (w : World) (runner : Runner) (a : Agent) : Event → Agent
  | request r => (handle w runner r a).2
  | operation op => (a.act w runner op).2
  | execution commands => ((Agent.withBrowser (runner.execute w commands)).run a).2

/-- The commands that an event executes, if any. -/
def commands? (a : Agent) : Event → Option (List Command)
  | request r => r.commands? a
  | operation (.run message) => a.commandsFor? message
  | operation _ => none
  | execution commands => some commands

end Event

theorem log_converse (w : World) (runner : Runner) (payload : Except PayloadError Text) (a : Agent) :
    (withPayload payload a (converse w runner a)).2.log =
      runner.logAfter w a.log (payload.toOption.bind fun message => a.commandsFor? (some message)) := by
  cases payload with
  | error e => rfl
  | ok message => exact Agent.log_run w runner (some message) a

theorem log_executePlan (w : World) (runner : Runner) (a : Agent) (p : PlanPayload) :
    (executePlan w runner a p).2.log =
      runner.logAfter w a.log
        (match judge p with
        | .ok (.accepted plan) => some (Command.ofPlan plan)
        | _ => none) := by
  unfold executePlan
  cases judge p with
  | error misfit => rfl
  | ok verdict =>
    cases verdict with
    | rejected defects => rfl
    | accepted plan => rfl

theorem log_handle (w : World) (runner : Runner) (r : Request) (a : Agent) :
    (handle w runner r a).2.log = runner.logAfter w a.log (r.commands? a) := by
  unfold handle Request.commands?
  cases Route.find r.method r.target with
  | error e => rfl
  | ok route =>
    cases route with
    | submit => exact log_converse w runner (textPayload "text" r.body) a
    | load => exact log_converse w runner (textPayload "content" r.body) a
    | execute =>
      cases h : planPayload r.body with
      | error e => simp only [follow, h]; rfl
      | ok p => simp only [follow, h]; exact log_executePlan w runner a p
    | selectTools =>
      simp only [follow]
      cases textsPayload "enabled_tools" r.body <;> rfl
    | validate =>
      simp only [follow]
      cases planPayload r.body with
      | error e => rfl
      | ok p =>
        simp only [withPayload]
        cases judge p <;> rfl
    | exportTranscript =>
      simp only [follow]
      cases a.transcript.toMarkdown <;> rfl
    | _ => rfl

theorem log_apply (w : World) (runner : Runner) (a : Agent) (e : Event) :
    (e.apply w runner a).log = runner.logAfter w a.log (e.commands? a) := by
  cases e with
  | request r => rw [Event.apply, Event.commands?, log_handle]
  | operation op =>
    cases op with
    | run message => exact Agent.log_run w runner message a
    | _ => rfl
  | execution commands => rfl

/-- The agent after a sequence of events, each in its own world. -/
def after (runner : Runner) : Agent → List (World × Event) → Agent
  | a, [] => a
  | a, (w, e) :: events => after runner (e.apply w runner a) events

def handed (runner : Runner) : Agent → List (World × Event) → List Command
  | _, [] => []
  | a, (w, e) :: events => (e.commands? a).getD [] ++ handed runner (e.apply w runner a) events

/-- Events only append to the log, and their page calls are calls of the executed commands. -/
theorem log_after (runner : Runner) (a : Agent) (events : List (World × Event)) :
    ∃ made, (after runner a events).log = a.log ++ made ∧
      ∀ c ∈ made, c.kind.isOfPage = true → ∃ command ∈ handed runner a events, c ∈ runner.calls command := by
  induction events generalizing a with
  | nil => exact ⟨[], by simp [after]⟩
  | cons event events ih =>
    obtain ⟨w, e⟩ := event
    obtain ⟨first, hf, hcf⟩ := runner.logAfter_eq w a.log (e.commands? a)
    obtain ⟨rest, hr, hcr⟩ := ih (e.apply w runner a)
    refine ⟨first ++ rest, ?_, ?_⟩
    · rw [after, hr, log_apply, hf, List.append_assoc]
    · intro c hc hk
      rw [handed]
      rcases List.mem_append.mp hc with hc | hc
      · obtain ⟨command, hm, hc⟩ := hcf c hc hk
        exact ⟨command, List.mem_append_left _ hm, hc⟩
      · obtain ⟨command, hm, hc⟩ := hcr c hc hk
        exact ⟨command, List.mem_append_right _ hm, hc⟩

example :
    (after ⟨.ready .plain, ⟨.none, ["shots"]⟩⟩ (.new [] (.ready []))
      [(⟨[], none, []⟩, .execution [.step (.goto "file:///etc/passwd"), .step (.goto "https://a.b"),
        .step (.screenshot "../../x")])]).log =
      [.createSession, .openSession, .goto "https://a.b" 30000, .screenshot "shots/x.png" 10000, .closeSession] := by
  decide +kernel

end BrowserPilot.Service
