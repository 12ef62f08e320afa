import BrowserPilot.StepResult
import BrowserPilot.Text.Truth

/-! Reading of results from wire objects, and its errors. -/
namespace BrowserPilot.StepResult

inductive Fault
  | missing
  | notText
  | notTruth
  /-- A string or a number that stands for no truth value. -/
  | unknownTruth
deriving DecidableEq, Repr

def Fault.code : Fault → Text
  | .missing => "missing"
  | .notText => "string_type"
  | .notTruth => "bool_type"
  | .unknownTruth => "bool_parsing"

structure Defect where
  key : Text
  fault : Fault
deriving DecidableEq, Repr

def readText : Json → Except Fault Text
  | .str s => .ok s
  | _ => .error .notText

/-- Integers from this bound on are reported as no truth value at all. -/
def truthBound : Int := 0x8000000000000000

def truthOfInt (n : Int) : Except Fault Bool :=
  if n = 0 then .ok false else if n = 1 then .ok true else .error .unknownTruth

/-- Reads a truth value, or a string or a number that stands for one. -/
def readTruth : Json → Except Fault Bool
  | .bool b => .ok b
  | .str s =>
    match Text.truth? s with
    | some b => .ok b
    | none => .error .unknownTruth
  | .int n => if -truthBound ≤ n ∧ n < truthBound then truthOfInt n else .error .notTruth
  | .float x =>
    match x.whole? with
    | some n => if -truthBound < n ∧ n < truthBound then truthOfInt n else .error .notTruth
    | none => .error .notTruth
  | _ => .error .notTruth

def requireField (key : Text) (reader : Json → Except Fault α) (v : Json) : Except Defect α :=
  match v.field? key with
  | none => .error ⟨key, .missing⟩
  | some w => (reader w).mapError fun fault => ⟨key, fault⟩

/-- Reads a field that may be missing or null. -/
def optionalField (key : Text) (reader : Json → Except Fault α) (v : Json) : Except Defect (Option α) :=
  match v.field? key with
  | none | some .null => .ok none
  | some w =>
    match reader w with
    | .ok x => .ok (some x)
    | .error fault => .error ⟨key, fault⟩

def defectOf : Except Defect α → List Defect
  | .ok _ => []
  | .error d => [d]

/-- Reads a wire object, or reports every field that cannot be read. -/
def ofJson (v : Json) : Except (List Defect) StepResult :=
  let action := requireField "action" readText v
  let success := requireField "success" readTruth v
  let data := optionalField "data" readText v
  let error := optionalField "error" readText v
  match action, success, data, error with
  | .ok action, .ok success, .ok data, .ok error => .ok ⟨action, success, data, error⟩
  | _, _, _, _ => .error (defectOf action ++ defectOf success ++ defectOf data ++ defectOf error)

theorem ofJson_toJson (r : StepResult) : ofJson r.toJson = .ok r := by
  obtain ⟨action, success, data, error⟩ := r
  cases data <;> cases error <;> rfl

end BrowserPilot.StepResult
