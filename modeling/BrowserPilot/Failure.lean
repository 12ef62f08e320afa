import BrowserPilot.Json.ReadError
import BrowserPilot.Plan
import BrowserPilot.Settings
import BrowserPilot.Transcript
import BrowserPilot.Url.Navigable

/-! The failures that an action can raise. -/
namespace BrowserPilot

/-- The exception classes that the browser, the model and the system raise. -/
inductive FaultKind
  | pageError
  | pageTimeout
  | timeout
  | systemError
  | fileNotFound
  | permission
  | runtime
  | value
  | unsafeUrl
deriving DecidableEq, Repr

def FaultKind.name : FaultKind → Text
  | .pageError => "Error"
  | .pageTimeout => "TimeoutError"
  | .timeout => "TimeoutError"
  | .systemError => "OSError"
  | .fileNotFound => "FileNotFoundError"
  | .permission => "PermissionError"
  | .runtime => "RuntimeError"
  | .value => "ValueError"
  | .unsafeUrl => "UnsafeUrlError"

theorem FaultKind.name_ne_empty (k : FaultKind) : k.name ≠ "" := by
  cases k <;> decide

/-- The faults that become a failed result: those of the page, of the system, and unsafe URLs. -/
def FaultKind.isStepFault : FaultKind → Bool
  | .runtime | .value => false
  | _ => true

inductive Failure
  /-- A fault raised by the browser, the model or the system, with its message. -/
  | fault (kind : FaultKind) (message : Text)
  | missingElement (selector : Text)
  | nothingVisible
  | refusedUrl (refusal : Url.Refusal)
  /-- A step whose action is not the name of a tool. -/
  | unknownAction (action : Text)
  | unreadable (text : Text) (error : Json.ReadError)
  | misfit (misfit : Plan.Misfit)
  | unrecorded (error : Transcript.AddError)
  | settings (error : Settings.LoadError)
  /-- The model has no answer left. -/
  | noReply
  /-- `run` was called on an agent that implements none. -/
  | noTask

namespace Failure

def name : Failure → Text
  | fault kind _ => kind.name
  | missingElement _ => "Error"
  | nothingVisible => "TimeoutError"
  | refusedUrl _ => "UnsafeUrlError"
  | unknownAction _ => "KeyError"
  | unreadable _ (.malformed _ _) => "JSONDecodeError"
  | unreadable _ (.tooManyDigits _) => "ValueError"
  | unreadable _ (.tooDeep _) => "RecursionError"
  | misfit _ => "ValidationError"
  | unrecorded (.unwritable .tooManyDigits) => "ValueError"
  | unrecorded (.unwritable .tooDeep) => "RecursionError"
  | unrecorded (.unencodable _) => "UnicodeEncodeError"
  | unrecorded .incomplete => "IntegrityError"
  | settings (.unreadable _) => "SettingsError"
  | settings (.tooDeep _) => "RecursionError"
  | settings (.invalid _) => "ValidationError"
  | noReply => "RuntimeError"
  | noTask => "NotImplementedError"

/-- The message of the failure, which is empty for a fault raised without one. -/
def message : Failure → Text
  | fault _ message => message
  | missingElement selector => "no element matches \"" ++ selector ++ "\""
  | nothingVisible => "Timeout exceeded: no visible text matches"
  | refusedUrl refusal => refusal.message
  | unknownAction action => Text.quoted action
  | unreadable text error => error.message text.toList
  | misfit _ => "the plan cannot be read"
  | unrecorded (.unwritable error) => error.message
  | unrecorded (.unencodable text) => text.encodeError
  | unrecorded .incomplete => "the entry lacks a role or a text"
  | settings error => error.message
  | noReply => "no more replies"
  | noTask => "Agent must implement run()"

/-- The message, or the name of the exception if the message is empty. -/
def text (f : Failure) : Text := if f.message.isEmpty then f.name else f.message

/-- Whether the failure becomes a failed result of its step. -/
def isStepFault : Failure → Bool
  | fault kind _ => kind.isStepFault
  | missingElement _ | nothingVisible | refusedUrl _ => true
  | unknownAction _ | unreadable _ _ | misfit _ | unrecorded _ | settings _ | noReply | noTask => false

end Failure

end BrowserPilot
