import BrowserPilot.Plan
import BrowserPilot.Plan.Defect

/-! Validation of untyped plans. Every defect of every step is reported; a plan without defects is read into typed
steps. -/
namespace BrowserPilot.Plan

inductive Verdict
  | accepted (plan : Plan)
  | rejected (defects : List Defect)
deriving DecidableEq, Repr

/-- Whether a value has the required argument. -/
def meets (r : Requirement) (v : Json) : Bool :=
  match v.field? r.field.key with
  | some (.str s) => !(r.nonEmpty && s.isEmpty)
  | _ => false

/-- The defects of one step when only the names in `enabled` may be its action. -/
def stepDefects (enabled : List Text) (v : Json) : List StepDefect :=
  match v with
  | .obj _ =>
    match v.field? "action" with
    | some (.str action) =>
      match Tool.ofName? action with
      | none => [if enabled.contains action then .unknown action else .foreign action]
      | some tool =>
        if enabled.contains action then
          (tool.requirements.filter fun r => !meets r v).map (.argument tool)
        else [.disabled tool]
    | _ => [.actionNotText]
  | _ => [.notObject]

/-- The defects of steps, the first of which has the given index. -/
def defectsFrom (enabled : List Text) : (index : Nat) → List Json → List Defect
  | _, [] => []
  | index, v :: vs => (stepDefects enabled v).map (.step index) ++ defectsFrom enabled (index + 1) vs

/-- Validates a value as a plan. An accepted plan is read into typed steps. -/
def validate (enabled : List Text) (raw : Json) : Except Misfit Verdict :=
  match raw with
  | .obj _ =>
    match raw.field? "steps" with
    | some (.arr steps) =>
      match defectsFrom enabled 0 steps with
      | [] => .accepted <$> ofJson raw
      | defects => .ok (.rejected defects)
    | _ => .ok (.rejected [.stepsNotArray])
  | _ => .ok (.rejected [.notObject])

namespace Verdict

def messages : Verdict → List Text
  | accepted _ => []
  | rejected defects => defects.map Defect.message

def toJson (v : Verdict) : Json :=
  match v with
  | accepted plan => .obj [("valid", .bool true), ("errors", .arr []), ("plan", plan.toJson)]
  | rejected _ => .obj [("valid", .bool false), ("errors", .arr (v.messages.map .str))]

end Verdict

theorem defectsFrom_append (enabled : List Text) (index : Nat) (vs ws : List Json) :
    defectsFrom enabled index (vs ++ ws) =
      defectsFrom enabled index vs ++ defectsFrom enabled (index + vs.length) ws := by
  induction vs generalizing index with
  | nil => rfl
  | cons v vs ih => simp [defectsFrom, ih, Nat.add_assoc, Nat.add_comm 1]

end BrowserPilot.Plan
