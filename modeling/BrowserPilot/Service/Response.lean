import BrowserPilot.Service.Payload
import BrowserPilot.Service.Route

/-! Responses and how they are rendered. -/
namespace BrowserPilot.Service

inductive Content
  | json (v : Json)
  | markdown (text : Text)
  | html (text : Text)
  | plain (text : Text)

def Content.mediaType : Content → Text
  | .json _ => "application/json"
  | .markdown _ => "text/markdown; charset=utf-8"
  | .html _ => "text/html; charset=utf-8"
  | .plain _ => "text/plain; charset=utf-8"

structure Response where
  status : Nat
  content : Content

namespace Response

mutual

/-- Whether a value can be rendered: its strings can be encoded and its numbers are finite. -/
def isSendable : Json → Bool
  | .str s => s.isEncodable
  | .float (.finite _ _ _) => true
  | .float _ => false
  | .arr items => areSendable items
  | .obj fields => areFieldsSendable fields
  | _ => true

def areSendable : List Json → Bool
  | [] => true
  | v :: items => isSendable v && areSendable items

def areFieldsSendable : List (Text × Json) → Bool
  | [] => true
  | (k, v) :: fields => k.isEncodable && isSendable v && areFieldsSendable fields

end

theorem areSendable_iff (items : List Json) : areSendable items = true ↔ ∀ v ∈ items, isSendable v = true := by
  induction items with
  | nil => simp [areSendable]
  | cons v items ih => simp [areSendable, ih]

theorem isSendable_texts {α : Type} (text : α → Text) (items : List α) :
    isSendable (.arr (items.map fun x => .str (text x))) = items.all fun x => (text x).isEncodable := by
  rw [Bool.eq_iff_iff, isSendable, areSendable_iff, List.all_eq_true, List.forall_mem_map]
  simp only [isSendable]

def failed : Response := ⟨500, .plain "Internal Server Error"⟩

/-- A JSON answer, or the answer 500 if the value cannot be rendered. -/
def json (status : Nat) (v : Json) : Response := if isSendable v then ⟨status, .json v⟩ else failed

def ok (v : Json) : Response := json 200 v

theorem ok_field (key : String) (v : Json) :
    ok (.obj [(↑key, v)]) = if isSendable v then ⟨200, .json (.obj [(↑key, v)])⟩ else failed := by
  simp [ok, json, isSendable, areFieldsSendable]

def refusal (status : Nat) (detail : Json) : Response := json status (.obj [("detail", detail)])

def markdown (text : Text) : Response := if text.isEncodable then ⟨200, .markdown text⟩ else failed

def ofRouteError : RouteError → Response
  | .notFound => refusal 404 (.str "Not Found")
  | .methodNotAllowed => refusal 405 (.str "Method Not Allowed")

def placeJson : Place → Json
  | .key name => .str name
  | .index n => .int n

def defectJson (d : PayloadDefect) : Json :=
  .obj [("type", .str d.fault.code), ("loc", .arr (d.place.map placeJson)), ("msg", .str d.fault.message)]

/-- The answer to a payload that is not accepted. A validation error shows the value found, and rendering it may
fail. -/
def ofPayloadError : PayloadError → Response
  | .undecodable => refusal 400 (.str "There was an error parsing the body")
  | .defective defects =>
    if defects.all fun d => isSendable d.culprit then refusal 422 (.arr (defects.map defectJson)) else failed

end Response

end BrowserPilot.Service
