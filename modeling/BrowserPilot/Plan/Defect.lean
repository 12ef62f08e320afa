import BrowserPilot.Tool

/-! The defects of a plan and their messages. -/
namespace BrowserPilot.Plan

inductive StepDefect
  | notObject
  | actionNotText
  /-- The action is neither enabled nor a tool. -/
  | foreign (action : Text)
  /-- The action is a tool but not enabled. -/
  | disabled (tool : Tool)
  /-- The action is enabled but not a tool. -/
  | unknown (action : Text)
  /-- A required argument is missing, is not a string, or is empty where it must not be. -/
  | argument (tool : Tool) (requirement : Requirement)
deriving DecidableEq, Repr

inductive Defect
  | notObject
  | stepsNotArray
  | step (index : Nat) (defect : StepDefect)
deriving DecidableEq, Repr

def StepDefect.message : StepDefect → Text
  | .notObject => "must be an object"
  | .actionNotText => "\"action\" must be a string"
  | .foreign action => "unknown action \"" ++ action ++ "\" (not in the enabled tools list)"
  | .disabled tool => "action \"" ++ tool.name ++ "\" is not in the enabled tools list"
  | .unknown action => "unknown action \"" ++ action ++ "\""
  | .argument tool requirement =>
    "\"" ++ tool.name ++ "\" requires a " ++ (if requirement.nonEmpty then "non-empty " else "") ++
      "\"" ++ requirement.field.key ++ "\" string"

def Defect.message : Defect → Text
  | .notObject => "Plan must be a JSON object"
  | .stepsNotArray => "\"steps\" must be an array"
  | .step index defect => "Step " ++ toString index ++ ": " ++ defect.message

end BrowserPilot.Plan
