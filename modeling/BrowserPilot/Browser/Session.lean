import BrowserPilot.Attempt
import BrowserPilot.Browser.World

/-! Browser sessions. Opening acquires resources one by one, and closing releases those that were acquired. -/
namespace BrowserPilot.Browser

structure LaunchOptions where
  headless : Bool
  executable : Option Text
deriving DecidableEq, Repr

/-- A session is a plain one with calls `open` and `close`, or launches a browser with the given options. -/
inductive Session
  | plain
  | launching (options : LaunchOptions)
deriving DecidableEq, Repr

/-- The resources a session has to release, each by the position of the call that acquired it. -/
structure Held where
  browser : Option Nat
  driver : Option Nat
deriving DecidableEq, Repr

def Held.nothing : Held := ⟨none, none⟩

/-- Sessions come from fixed options, or from settings that failed to load. -/
inductive SessionSource
  | ready (session : Session)
  | unusable (error : Settings.LoadError)
deriving DecidableEq, Repr

/-- The state of an execution: the log, and the resources the current session holds. -/
structure Desk where
  held : Held
  log : Log
deriving DecidableEq, Repr

def Desk.clear : Desk := ⟨.nothing, []⟩

/-- Makes a call; returns its position in the log and its response. -/
def perform (w : World) (c : Call) : Attempt Desk (Nat × Text) := fun d =>
  ((w.respond d.log c).map fun text => (d.log.length, text), { d with log := d.log ++ [c] })

def perform_ (w : World) (c : Call) : Attempt Desk Unit := do
  let _ ← perform w c

theorem run_perform (w : World) (c : Call) (d : Desk) :
    (perform w c).run d =
      ((w.respond d.log c).map fun text => (d.log.length, text), { d with log := d.log ++ [c] }) := rfl

theorem run_perform_ (w : World) (c : Call) (d : Desk) :
    (perform_ w c).run d = ((w.respond d.log c).map fun _ => (), { d with log := d.log ++ [c] }) := by
  rw [perform_, Attempt.run_bind, run_perform]
  cases w.respond d.log c <;> rfl

/-- The call that launches the browser. An empty executable path is left out. -/
def LaunchOptions.call (o : LaunchOptions) : Call :=
  .launch o.headless (o.executable.filter fun path => !path.isEmpty)

/-- Creates a session. The call is logged before the settings are loaded. -/
def SessionSource.create (w : World) (source : SessionSource) : Attempt Desk Session := do
  perform_ w .createSession
  match source with
  | ready session => return session
  | unusable error => throw (.settings error)

namespace Session

/-- Opens the session. A resource is held as soon as it is acquired, so it is released also when a later call fails. -/
def openUp (w : World) : Session → Attempt Desk Unit
  | plain => perform_ w .openSession
  | launching options => do
    let (driver, _) ← perform w .start
    modify fun d => { d with held.driver := some driver }
    let (browser, _) ← perform w options.call
    modify fun d => { d with held.browser := some browser }
    perform_ w .newContext
    perform_ w .newPage

def endBrowser (w : World) : Option Nat → Attempt Desk Unit
  | some browser => perform_ w (.closeBrowser browser)
  | none => pure ()

def endDriver (w : World) : Option Nat → Attempt Desk Unit
  | some driver => perform_ w (.stop driver)
  | none => pure ()

/-- Closes the session. The held resources are cleared first, then released; the driver is stopped even if closing
the browser fails, and of two failures the second is raised. -/
def close (w : World) : Session → Attempt Desk Unit
  | plain => perform_ w .closeSession
  | launching _ => do
    let held := (← get).held
    modify fun d => { d with held := .nothing }
    let closed ← Attempt.result (endBrowser w held.browser)
    endDriver w held.driver
    Attempt.ofResult closed

inductive Move
  | openUp
  | close
deriving DecidableEq, Repr

def act (w : World) (s : Session) : Move → Attempt Desk Unit
  | .openUp => s.openUp w
  | .close => s.close w

end Session

end BrowserPilot.Browser
