import BrowserPilot.Json.Printer
import BrowserPilot.Json.Reader
import BrowserPilot.Text.Encoding
import BrowserPilot.Text.Pieces

/-! The transcript: a table of entries with a role, a text and an optional result. -/
namespace BrowserPilot

def userRole : String := "user"

def modelRole : String := "llm"

def resultRole : String := "result"

/-- A row of the table. Its texts have been encoded and its result has been dumped. -/
structure Entry where
  id : Nat
  role : String
  text : String
  result : Option String
deriving DecidableEq, Repr

structure Transcript where
  entries : List Entry
deriving DecidableEq, Repr

namespace Transcript

def empty : Transcript := ⟨[]⟩

/-- One more than the greatest id. -/
def nextId (t : Transcript) : Nat := (t.entries.map (·.id)).foldl max 0 + 1

inductive AddError
  | unwritable (error : Json.PrintError)
  | unencodable (text : Text)
  /-- The role or the text is missing. -/
  | incomplete
deriving DecidableEq, Repr

def encode (text : Text) : Except AddError String :=
  match text.string? with
  | some s => .ok s
  | none => .error (.unencodable text)

def encode? : Option Text → Except AddError (Option String)
  | none => .ok none
  | some text => (encode text).map some

def written : Option Json → Except AddError (Option Text)
  | none => .ok none
  | some v =>
    match v.dump with
    | .ok text => .ok (some text)
    | .error e => .error (.unwritable e)

/-- Inserts an entry. The result is dumped first, then role and text are encoded, and only then missing parts are
refused. -/
def add? (t : Transcript) (role text : Option Text) (result : Option Json) : Except AddError (Entry × Transcript) := do
  let result ← written result
  let role ← encode? role
  let text ← encode? text
  let result ← encode? result
  match role, text with
  | some role, some text =>
    let e : Entry := ⟨t.nextId, role, text, result⟩
    return (e, ⟨t.entries ++ [e]⟩)
  | _, _ => throw .incomplete

def add (t : Transcript) (role text : Text) (result : Option Json) : Except AddError Transcript :=
  (t.add? (some role) (some text) result).map Prod.snd

def clear (_ : Transcript) : Transcript := empty

def heading : Text := "# Playwright Chat Runner - Export\n"

/-- The section of an entry in an export. Roles other than user, model and result have none. -/
def sectionOf (e : Entry) : Except Json.ReadError (Option Text) :=
  if e.role == userRole then .ok (some ("## User\n\n" ++ e.text ++ "\n"))
  else if e.role == modelRole then .ok (some ("## Assistant\n\n" ++ e.text ++ "\n"))
  else if e.role == resultRole then
    match e.result with
    | none => .ok none
    | some text => (Json.read text).map fun v =>
      some ("## Execution Result\n\n\x60\x60\x60json\n" ++ v.pretty ++ "\n\x60\x60\x60\n")
  else .ok none

def sections : List Entry → Except Json.ReadError (List Text)
  | [] => .ok []
  | e :: es => do
    let part ← sectionOf e
    let parts ← sections es
    return part.toList ++ parts

def toMarkdown (t : Transcript) : Except Json.ReadError Text := do
  let parts ← sections t.entries
  return Text.joinLines (heading :: parts)

inductive Operation
  | add (role text : Option Text) (result : Option Json)
  | clear
  /-- Creates the table if it does not exist. -/
  | prepare
  /-- Lists or exports the entries. -/
  | look

def after (t : Transcript) : Operation → Transcript
  | .add role text result =>
    match t.add? role text result with
    | .ok (_, t) => t
    | .error _ => t
  | .clear => t.clear
  | .prepare | .look => t

end Transcript

end BrowserPilot
