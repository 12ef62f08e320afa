import BrowserPilot.Text.Basic

/-! The calls of the browser and their log. -/
namespace BrowserPilot.Browser

/-- A call of the session factory, of the driver or of a page, with its arguments. Timeouts are in milliseconds. A
call that ends something refers to the call that began it by its position in the log. -/
inductive Call
  | createSession
  | openSession
  | closeSession
  | start
  | launch (headless : Bool) (executable : Option Text)
  | newContext
  | newPage
  | closeBrowser (launched : Nat)
  | stop (started : Nat)
  | goto (url : Text) (timeout : Nat)
  | click (pattern : Text) (timeout : Nat)
  | waitFor (pattern : Text) (timeout : Nat)
  | fill (selector value : Text) (timeout : Nat)
  | innerText (firstOnly : Bool) (selector : Text) (timeout : Nat)
  | screenshot (path : Text) (timeout : Nat)
deriving DecidableEq, Repr

inductive CallKind
  | createSession
  | openSession
  | closeSession
  | start
  | launch
  | newContext
  | newPage
  | closeBrowser
  | stop
  | goto
  | click
  | waitFor
  | fill
  | innerText
  | screenshot
deriving DecidableEq, Repr

def Call.kind : Call → CallKind
  | .createSession => .createSession
  | .openSession => .openSession
  | .closeSession => .closeSession
  | .start => .start
  | .launch _ _ => .launch
  | .newContext => .newContext
  | .newPage => .newPage
  | .closeBrowser _ => .closeBrowser
  | .stop _ => .stop
  | .goto _ _ => .goto
  | .click _ _ => .click
  | .waitFor _ _ => .waitFor
  | .fill _ _ _ => .fill
  | .innerText _ _ _ => .innerText
  | .screenshot _ _ => .screenshot

def CallKind.isOfPage : CallKind → Bool
  | .goto | .click | .waitFor | .fill | .innerText | .screenshot => true
  | _ => false

/-- Calls in the order they were made. -/
abbrev Log := List Call

def Log.count (log : Log) (kind : CallKind) : Nat := List.countP (fun c => c.kind = kind) log

end BrowserPilot.Browser
