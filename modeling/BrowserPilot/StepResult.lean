import BrowserPilot.Json.Basic
import BrowserPilot.Text.Blank
import BrowserPilot.Text.Pieces

/-! Results of steps, as wire objects and as lines of a report. -/
namespace BrowserPilot

structure StepResult where
  action : Text
  success : Bool
  data : Option Text
  error : Option Text
deriving DecidableEq, Repr

namespace StepResult

def succeeded (action : Text) (data : Option Text) : StepResult := ⟨action, true, data, none⟩

def failed (action : Text) (error : Text) : StepResult := ⟨action, false, none, some error⟩

/-- The wire object, which has no field for missing data or a missing error. -/
def toJson (r : StepResult) : Json :=
  .obj ([(("action" : Text), .str r.action), ("success", .bool r.success)] ++
    (r.data.map fun data => (("data" : Text), Json.str data)).toList ++
    (r.error.map fun error => (("error" : Text), Json.str error)).toList)

/-- The line of the result in a report, without trailing blanks. -/
def line (r : StepResult) : Text :=
  Text.stripRight (r.action ++ ": " ++ (if r.success then "success" else "failed") ++ " " ++ r.data.getD "" ++ " " ++
    r.error.getD "")

def report (results : List StepResult) : Text := Text.joinLines (results.map line)

end StepResult

end BrowserPilot
