import BrowserPilot.Browser.Session
import BrowserPilot.FilePath
import BrowserPilot.ScreenshotName
import BrowserPilot.StepResult

/-! Execution of plans in a browser session. A failed step becomes a failed result and the next step is executed.
The session is closed however the plan ends, and faults while closing are ignored. -/
namespace BrowserPilot.Browser

/-- An entry of a plan that has not been validated: a step, or an action that is not the name of a tool. -/
inductive Command
  | step (s : Step)
  | unknown (action : Text)
deriving DecidableEq, Repr

def Command.action : Command → Text
  | .step s => s.action
  | .unknown action => action

/-- Only `closeBrowser` ends the plan. -/
def Command.endsPlan : Command → Bool
  | .step .closeBrowser => true
  | _ => false

def Command.ofPlan (p : Plan) : List Command := p.steps.map .step

structure Runner where
  sessions : SessionSource
  screenshots : FilePath
deriving DecidableEq, Repr

def navigationTimeout : Nat := 30000

def stepTimeout : Nat := 10000

/-- The action under which a failed opening of the session is reported. -/
def initAction : Text := "browser-init"

namespace Runner

def screenshotPath (r : Runner) (name : Text) : Text :=
  (r.screenshots.child (ScreenshotName.fileName name)).render

/-- Performs a step; the steps that read text or save a screenshot return data. -/
def carryOut (r : Runner) (w : World) : Step → Attempt Desk (Option Text)
  | .goto url =>
    match Url.navigable url with
    | .error refusal => throw (.refusedUrl refusal)
    | .ok url => do
      perform_ w (.goto url navigationTimeout)
      return none
  | .clickText text => do
    perform_ w (.click (TextPattern.ofText text) stepTimeout)
    return none
  | .typeInto selector value => do
    perform_ w (.fill selector value stepTimeout)
    return none
  | .waitForText text => do
    perform_ w (.waitFor (TextPattern.ofText text) stepTimeout)
    return none
  | .extractText selector => do
    let (_, text) ← perform w (.innerText true selector stepTimeout)
    return some text
  | .snapshotText => do
    let (_, text) ← perform w (.innerText false "body" stepTimeout)
    return some text
  | .screenshot name => do
    perform_ w (.screenshot (r.screenshotPath name) stepTimeout)
    return some (r.screenshotPath name)
  | .closeBrowser => return none

/-- Executes one command. A step fault becomes a failed result; any other failure is raised. -/
def executeCommand (r : Runner) (w : World) : Command → Attempt Desk StepResult
  | .unknown action => throw (.unknownAction action)
  | .step s => do
    match ← Attempt.result (r.carryOut w s) with
    | .ok data => return .succeeded s.action data
    | .error failure =>
      if failure.isStepFault then return .failed s.action failure.text else throw failure

/-- Executes commands up to and including the first `closeBrowser`. -/
def executeCommands (r : Runner) (w : World) : List Command → Attempt Desk (List StepResult)
  | [] => return []
  | c :: cs => do
    let result ← r.executeCommand w c
    if c.endsPlan then return [result]
    else
      let results ← r.executeCommands w cs
      return result :: results

/-- Opens the session and executes the commands in it. A failed opening is the only result. -/
def useSession (r : Runner) (w : World) (session : Session) (commands : List Command) :
    Attempt Desk (List StepResult) := do
  match ← Attempt.result (session.openUp w) with
  | .error failure => return [.failed initAction failure.text]
  | .ok _ => r.executeCommands w commands

/-- Creates a session, uses it, and closes it whether or not execution failed. -/
def execute (r : Runner) (w : World) (commands : List Command) : Attempt Desk (List StepResult) := do
  let session ← r.sessions.create w
  modify fun d => { d with held := .nothing }
  let outcome ← Attempt.result (r.useSession w session commands)
  let _ ← Attempt.result (session.close w)
  Attempt.ofResult outcome

end Runner

end BrowserPilot.Browser
