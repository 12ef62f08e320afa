import BrowserPilot.Text.Pieces

/-! The tools of a plan: their fields and their descriptions. -/
namespace BrowserPilot

inductive Tool
  | goto
  | clickText
  | typeInto
  | waitForText
  | extractText
  | snapshotText
  | screenshot
  | closeBrowser
deriving DecidableEq, Repr

inductive Field
  | url
  | text
  | selector
  | value
  | name
deriving DecidableEq, Repr

def Field.key : Field → Text
  | .url => "url"
  | .text => "text"
  | .selector => "selector"
  | .value => "value"
  | .name => "name"

/-- A string field that a step must have, and whether it may be empty. -/
structure Requirement where
  field : Field
  nonEmpty : Bool
deriving DecidableEq, Repr

namespace Tool

def all : List Tool :=
  [goto, clickText, typeInto, waitForText, extractText, snapshotText, screenshot, closeBrowser]

def name : Tool → Text
  | goto => "goto"
  | clickText => "clickText"
  | typeInto => "type"
  | waitForText => "waitForText"
  | extractText => "extractText"
  | snapshotText => "snapshotText"
  | screenshot => "screenshot"
  | closeBrowser => "closeBrowser"

def names : List Text := all.map name

def ofName? (action : Text) : Option Tool := all.find? (·.name == action)

/-- The required fields of a tool, in the order in which they are checked and written. -/
def requirements : Tool → List Requirement
  | goto => [⟨.url, true⟩]
  | clickText => [⟨.text, true⟩]
  | typeInto => [⟨.selector, true⟩, ⟨.value, false⟩]
  | waitForText => [⟨.text, true⟩]
  | extractText => [⟨.selector, true⟩]
  | snapshotText => []
  | screenshot => [⟨.name, true⟩]
  | closeBrowser => []

/-- The description of a tool in the prompt. -/
def description : Tool → Text
  | goto => "goto: \x7b \"action\": \"goto\", \"url\": \"<string>\" \x7d - Navigate to a URL"
  | clickText =>
    "clickText: \x7b \"action\": \"clickText\", \"text\": \"<string>\" \x7d - Click element by visible text"
  | typeInto =>
    "type: \x7b \"action\": \"type\", \"selector\": \"<string>\", \"value\": \"<string>\" \x7d - Type into an element"
  | waitForText =>
    "waitForText: \x7b \"action\": \"waitForText\", \"text\": \"<string>\" \x7d - Wait for text to appear"
  | extractText =>
    "extractText: \x7b \"action\": \"extractText\", \"selector\": \"<string>\" \x7d - Extract text from element"
  | snapshotText => "snapshotText: \x7b \"action\": \"snapshotText\" \x7d - Get all visible text from page body"
  | screenshot => "screenshot: \x7b \"action\": \"screenshot\", \"name\": \"<string>\" \x7d - Take a screenshot"
  | closeBrowser => "closeBrowser: \x7b \"action\": \"closeBrowser\" \x7d - Close the browser"

theorem mem_all (t : Tool) : t ∈ all := by
  cases t <;> decide

theorem ofName?_name (t : Tool) : ofName? t.name = some t := by
  cases t <;> decide

theorem name_of_ofName? {action : Text} {t : Tool} (h : ofName? action = some t) : t.name = action := by
  simpa using List.find?_some h

theorem name_injective {s t : Tool} (h : s.name = t.name) : s = t := by
  simpa [ofName?_name] using congrArg ofName? h

theorem notMem_name {c : CodePoint} (h : c.isAlpha = false) (t : Tool) : c ∉ t.name.toList := by
  have hl : t.name.toList.all CodePoint.isAlpha = true := by
    cases t <;> decide
  intro hc
  rw [List.all_eq_true.mp hl c hc] at h
  cases h

end Tool

/-- The tools that a selection makes active: all of them if it is empty. -/
def activeTools (selection : List Text) : List Text :=
  if selection.isEmpty then Tool.names else selection

/-- The line for a name: the description of a tool, any other name itself. -/
def describeName (name : Text) : Text :=
  match Tool.ofName? name with
  | some tool => tool.description
  | none => name

def describeTools (selection : List Text) : Text :=
  Text.joinLines ((activeTools selection).map describeName)

end BrowserPilot
