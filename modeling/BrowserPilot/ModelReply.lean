import BrowserPilot.Fence
import BrowserPilot.Json.Literal
import BrowserPilot.Json.Reader

/-! Decoding of model answers into plans and clarifications. -/
namespace BrowserPilot

inductive ModelReply
  | question (text : Text)
  | plan (value : Json)

namespace ModelReply

/-- An object with the key `clarification` is a question, any other value a plan. -/
def ofJson (v : Json) : ModelReply :=
  match v.field? "clarification" with
  | some asked => .question asked.display
  | none => .plan v

/-- Decodes a text. A syntax error makes the stripped text a question; an exceeded limit is an error. -/
def ofText (text : Text) : Except Json.ReadError ModelReply :=
  let trimmed := Text.trim text.toList
  match Json.readText (Fence.strip trimmed) with
  | .ok v => .ok (ofJson v)
  | .error (.malformed _ _) => .ok (.question (Text.ofList trimmed))
  | .error limit => .error limit

def ofAnswer (text : Option Text) : Except Json.ReadError ModelReply := ofText (text.getD "")

end ModelReply

end BrowserPilot
