import BrowserPilot.Settings.Value
import BrowserPilot.Text.Pieces

/-! The settings of the program, read from environment variables. -/
namespace BrowserPilot

structure Settings where
  host : Text
  port : Int
  debug : Bool
  transcriptUrl : Text
  allowedOrigins : List Text
  modelKey : Option Text
  modelUrl : Option Text
  modelName : Text
  temperature : Binary64
  headless : Bool
  browserPath : Option Text
  /-- Without one, screenshots go to a subdirectory of the system's directory for temporary files. -/
  screenshotDir : Option Text
deriving DecidableEq, Repr

namespace Settings

def default : Settings where
  host := "0.0.0.0"
  port := 8000
  debug := true
  transcriptUrl := "sqlite:///./chat_runner.db"
  allowedOrigins := ["http://localhost:3000", "http://localhost:8000"]
  modelKey := none
  modelUrl := none
  modelName := "gpt-4o"
  temperature := .finite false 0 Binary64.leastExponent
  headless := true
  browserPath := none
  screenshotDir := none

def names : List Text :=
  ["host", "port", "debug", "sqlite_url", "allow_origins", "openai_api_key", "openai_model_url", "model_name",
   "llm_temperature", "headless", "browser_executable_path", "screenshot_dir"]

/-- A field with an invalid value. For a list it names the index of the item. -/
structure Problem where
  name : Text
  item : Option Nat
  fault : ValueFault
deriving DecidableEq, Repr

inductive LoadError
  /-- A list whose value is not JSON. -/
  | unreadable (name : Text)
  /-- A list whose value is nested too deeply. -/
  | tooDeep (container : Json.Container)
  | invalid (problems : List Problem)
deriving DecidableEq, Repr

/-- One line of the error: the field and the kind of its fault. -/
def Problem.message (p : Problem) : Text :=
  p.name ++ (p.item.elim "" fun n => "." ++ toString n) ++ ": " ++ p.fault.code

def LoadError.message : LoadError → Text
  | .unreadable name => "error parsing value for field \"" ++ name ++ "\" from source \"EnvSettingsSource\""
  | .tooDeep container => (Json.ReadError.tooDeep container).message []
  | .invalid problems => Text.joinLines (problems.map Problem.message)

/-- A name in lower case. Outside ASCII only the Kelvin sign has a lower case letter in ASCII. -/
def lowerName (name : Text) : Text := name.map fun c => if c == '\u212a' then 'k' else c.toLower

/-- The value of a variable. Names are compared without case, and the last of several values counts. -/
def find? (env : List (Text × Text)) (name : Text) : Option Text :=
  (env.reverse.find? fun p => lowerName p.1 == name).map (·.2)

/-- Reads a variable, or returns the default if it is not set. -/
def read (env : List (Text × Text)) (name : Text) (reader : Text → Except ValueFault α) (byDefault : α) :
    Except Problem α :=
  match find? env name with
  | none => .ok byDefault
  | some s =>
    match reader s with
    | .ok v => .ok v
    | .error fault => .error ⟨name, none, fault⟩

/-- The strings of a list and the errors of the other items; `index` is the index of the first item. -/
def readItems (name : Text) : (index : Nat) → List Json → List Text × List Problem
  | _, [] => ([], [])
  | index, .str s :: items =>
    let (texts, problems) := readItems name (index + 1) items
    (s :: texts, problems)
  | index, _ :: items =>
    let (texts, problems) := readItems name (index + 1) items
    (texts, ⟨name, some index, .text⟩ :: problems)

/-- A list of strings. A missing value and null give the default. -/
def readTexts (name : Text) (byDefault : List Text) : Option Json → Except (List Problem) (List Text)
  | none | some .null => .ok byDefault
  | some (.arr items) =>
    match readItems name 0 items with
    | (texts, []) => .ok texts
    | (_, problems) => .error problems
  | some _ => .error [⟨name, none, .list⟩]

/-- The value of a variable that is written in JSON. -/
def listValue (env : List (Text × Text)) (name : Text) : Except LoadError (Option Json) :=
  match (find? env name).map Json.read with
  | none => .ok none
  | some (.ok v) => .ok (some v)
  | some (.error (.tooDeep container)) => .error (.tooDeep container)
  | some (.error _) => .error (.unreadable name)

def problemOf : Except Problem α → List Problem
  | .ok _ => []
  | .error p => [p]

/-- Loads the settings, or reports every invalid field. -/
def load (env : List (Text × Text)) : Except LoadError Settings := do
  let originsValue ← listValue env "allow_origins"
  let origins := readTexts "allow_origins" default.allowedOrigins originsValue
  let port := read env "port" readWhole default.port
  let debug := read env "debug" readTruth default.debug
  let temperature := read env "llm_temperature" readFraction default.temperature
  let headless := read env "headless" readTruth default.headless
  match port, debug, origins, temperature, headless with
  | .ok port, .ok debug, .ok allowedOrigins, .ok temperature, .ok headless =>
    return {
      host := (find? env "host").getD default.host
      port, debug
      transcriptUrl := (find? env "sqlite_url").getD default.transcriptUrl
      allowedOrigins
      modelKey := find? env "openai_api_key"
      modelUrl := find? env "openai_model_url"
      modelName := (find? env "model_name").getD default.modelName
      temperature, headless
      browserPath := find? env "browser_executable_path"
      screenshotDir := find? env "screenshot_dir" }
  | _, _, _, _, _ =>
    let originProblems := match origins with
      | .ok _ => []
      | .error problems => problems
    throw (.invalid (problemOf port ++ problemOf debug ++ originProblems ++ problemOf temperature ++
      problemOf headless))

end Settings

end BrowserPilot
