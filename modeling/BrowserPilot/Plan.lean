import BrowserPilot.Json.Basic
import BrowserPilot.Tool

/-! Plans and their typed steps. -/
namespace BrowserPilot

inductive Step
  | goto (url : Text)
  | clickText (text : Text)
  | typeInto (selector value : Text)
  | waitForText (text : Text)
  | extractText (selector : Text)
  | snapshotText
  | screenshot (name : Text)
  | closeBrowser
deriving DecidableEq, Repr

structure Plan where
  steps : List Step
deriving DecidableEq, Repr

namespace Step

def tool : Step → Tool
  | goto _ => .goto
  | clickText _ => .clickText
  | typeInto _ _ => .typeInto
  | waitForText _ => .waitForText
  | extractText _ => .extractText
  | snapshotText => .snapshotText
  | screenshot _ => .screenshot
  | closeBrowser => .closeBrowser

def action (s : Step) : Text := s.tool.name

/-- The fields of the step, in the order of the tool's requirements. -/
def arguments : Step → List (Field × Text)
  | goto url => [(.url, url)]
  | clickText text => [(.text, text)]
  | typeInto selector value => [(.selector, selector), (.value, value)]
  | waitForText text => [(.text, text)]
  | extractText selector => [(.selector, selector)]
  | snapshotText => []
  | screenshot name => [(.name, name)]
  | closeBrowser => []

def toJson (s : Step) : Json :=
  .obj (("action", .str s.action) :: s.arguments.map fun p => (p.1.key, .str p.2))

theorem arguments_fields (s : Step) : s.arguments.map Prod.fst = s.tool.requirements.map (·.field) := by
  cases s <;> rfl

end Step

namespace Plan

def toJson (p : Plan) : Json := .obj [("steps", .arr (p.steps.map Step.toJson))]

/-- The errors of reading a typed step. -/
inductive Misfit
  | noSteps
  | noAction
  | noArgument (field : Field)
deriving DecidableEq, Repr

def argument (field : Field) (v : Json) : Except Misfit Text :=
  match v.field? field.key with
  | some (.str s) => .ok s
  | _ => .error (.noArgument field)

/-- Reads a typed step by its action. Fields that the action does not have are ignored. -/
def readStep (v : Json) : Except Misfit Step :=
  match (v.field? "action").bind Json.str? |>.bind Tool.ofName? with
  | none => .error .noAction
  | some .goto => Step.goto <$> argument .url v
  | some .clickText => Step.clickText <$> argument .text v
  | some .typeInto => Step.typeInto <$> argument .selector v <*> argument .value v
  | some .waitForText => Step.waitForText <$> argument .text v
  | some .extractText => Step.extractText <$> argument .selector v
  | some .snapshotText => .ok .snapshotText
  | some .screenshot => Step.screenshot <$> argument .name v
  | some .closeBrowser => .ok .closeBrowser

def readSteps : List Json → Except Misfit (List Step)
  | [] => .ok []
  | v :: vs => do
    let step ← readStep v
    let steps ← readSteps vs
    return step :: steps

def ofJson (v : Json) : Except Misfit Plan :=
  match v.field? "steps" with
  | some (.arr items) => Plan.mk <$> readSteps items
  | _ => .error .noSteps

theorem readStep_toJson (s : Step) : readStep s.toJson = .ok s := by
  cases s <;> rfl

theorem readSteps_toJson (steps : List Step) : readSteps (steps.map Step.toJson) = .ok steps := by
  induction steps with
  | nil => rfl
  | cons s steps ih => simp [readSteps, readStep_toJson, ih, bind, Except.bind, pure, Except.pure]

theorem ofJson_toJson (p : Plan) : ofJson p.toJson = .ok p := by
  simp [ofJson, toJson, Json.field?, readSteps_toJson, Functor.map, Except.map]

end Plan

end BrowserPilot
