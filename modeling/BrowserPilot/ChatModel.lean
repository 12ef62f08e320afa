import BrowserPilot.Attempt
import BrowserPilot.Json.Literal
import BrowserPilot.Text.Blank

/-! The chat model: it is sent requests, and answers or fails. -/
namespace BrowserPilot

structure Message where
  role : Text
  content : Text
deriving DecidableEq, Repr

/-- The model's reaction to one request. -/
inductive Answer
  | content (value : Json)
  | fails (kind : FaultKind) (message : Text)

/-- A chat model: its remaining answers, and the requests sent to it. A model that is built on first use has its
answers in `inStore`. -/
structure ChatModel where
  answers : Option (List Answer)
  inStore : List Answer
  builds : Nat
  requests : List (List Message)

namespace ChatModel

def ready (answers : List Answer) : ChatModel := ⟨some answers, [], 0, []⟩

def onDemand (answers : List Answer) : ChatModel := ⟨none, answers, 0, []⟩

def replace (m : ChatModel) (answers : List Answer) : ChatModel := { m with answers := some answers }

def built (m : ChatModel) : ChatModel :=
  match m.answers with
  | some _ => m
  | none => { m with answers := some m.inStore, builds := m.builds + 1 }

def messages (system user : Text) : List Message := [⟨"system", system⟩, ⟨"user", user⟩]

/-- The stripped text of an answer. -/
def hear : Option Answer → Except Failure Text
  | some (.content value) => .ok (Text.strip value.display)
  | some (.fails kind message) => .error (.fault kind message)
  | none => .error .noReply

/-- Sends a system and a user message and returns the stripped answer. -/
def ask (system user : Text) : Attempt ChatModel Text := fun m =>
  let m := m.built
  let answers := m.answers.getD []
  (hear answers.head?,
    { m with answers := some answers.tail, requests := m.requests ++ [messages system user] })

end ChatModel

end BrowserPilot
