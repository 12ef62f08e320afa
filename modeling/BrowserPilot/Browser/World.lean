import BrowserPilot.Browser.Call
import BrowserPilot.Failure
import BrowserPilot.TextPattern

/-! The environment of the browser: the texts of the page, and the calls that fail. -/
namespace BrowserPilot.Browser

/-- Makes calls of one kind fail: all of them, or only the one with the given number, counted from one. -/
structure FaultRule where
  call : CallKind
  number : Option Nat
  kind : FaultKind
  message : Text
deriving DecidableEq, Repr

/-- A page and its faults. Without a list of visible texts every pattern is found. -/
structure World where
  texts : List (Text × Text)
  visible : Option (List Text)
  faults : List FaultRule
deriving DecidableEq, Repr

namespace World

def fault? (w : World) (kind : CallKind) (number : Nat) : Option Failure :=
  (w.faults.find? fun r => r.call = kind && (r.number.isNone || r.number = some number)).map fun r =>
    .fault r.kind r.message

def shows (w : World) (pattern : Text) : Bool :=
  match w.visible with
  | none => true
  | some texts => texts.any (TextPattern.finds pattern)

/-- The response to a call that no rule makes fail; only `innerText` returns a text. -/
def content (w : World) : Call → Except Failure Text
  | .click pattern _ | .waitFor pattern _ => if w.shows pattern then .ok "" else .error .nothingVisible
  | .innerText _ selector _ =>
    match w.texts.lookup selector with
    | some text => .ok text
    | none => .error (.missingElement selector)
  | _ => .ok ""

/-- The response to a call made after the calls of the log. -/
def respond (w : World) (past : Log) (c : Call) : Except Failure Text :=
  match w.fault? c.kind (past.count c.kind + 1) with
  | some f => .error f
  | none => w.content c

end World

end BrowserPilot.Browser
