import BrowserPilot.Service.Page
import BrowserPilot.Service.Payload
import BrowserPilot.Service.Target

/-! The routes of the service. -/
namespace BrowserPilot.Service

inductive Route
  | listTools
  | selectTools
  | submit
  | load
  | validate
  | execute
  | exportTranscript
  | clearHistory
  | describe
  | page (p : Page)
deriving DecidableEq, Repr

inductive RouteError
  | notFound
  | methodNotAllowed
deriving DecidableEq, Repr

namespace Route

def all : List Route :=
  [listTools, selectTools, submit, load, validate, execute, exportTranscript, clearHistory, describe] ++
    Page.all.map page

def method : Route → Text
  | listTools => "GET"
  | selectTools => "PUT"
  | submit => "POST"
  | load => "POST"
  | validate => "POST"
  | execute => "POST"
  | exportTranscript => "GET"
  | clearHistory => "DELETE"
  | describe => "GET"
  | page _ => "GET"

def path : Route → Text
  | listTools => "/tools"
  | selectTools => "/tools"
  | submit => "/submit"
  | load => "/load"
  | validate => "/validate"
  | execute => "/execute"
  | exportTranscript => "/export"
  | clearHistory => "/history"
  | describe => "/openapi.json"
  | page p => p.path

def payload? : Route → Option PayloadKind
  | selectTools => some .tools
  | submit => some .submission
  | load => some .instructions
  | validate | execute => some .plan
  | listTools | exportTranscript | clearHistory | describe | page _ => none

/-- Whether a route serves the description or a page. -/
def isReflexive : Route → Bool
  | describe | page _ => true
  | _ => false

/-- Whether a route accepts a method. `HEAD` is accepted where the service describes itself. -/
def accepts (r : Route) (method : Text) : Bool := r.method == method || (r.isReflexive && method == "HEAD")

def find (method target : Text) : Except RouteError Route :=
  match all.filter fun r => r.path == Target.place target with
  | [] => .error .notFound
  | here =>
    match here.find? fun r => r.accepts method with
    | some r => .ok r
    | none => .error .methodNotAllowed

end Route

end BrowserPilot.Service
