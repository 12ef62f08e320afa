import BrowserPilot.Json.Reader
import BrowserPilot.Text.Encoding

/-! The payloads of requests and their validation errors. -/
namespace BrowserPilot.Service

/-- A step of the path to a value: a key or an index. -/
inductive Place
  | key (name : Text)
  | index (n : Nat)
deriving DecidableEq, Repr

inductive PayloadFault
  | missing
  | notObject
  | notText
  | notList
  | malformed
deriving DecidableEq, Repr

def PayloadFault.code : PayloadFault → Text
  | .missing => "missing"
  | .notObject => "model_attributes_type"
  | .notText => "string_type"
  | .notList => "list_type"
  | .malformed => "json_invalid"

def PayloadFault.message : PayloadFault → Text
  | .missing => "Field required"
  | .notObject => "Input should be a valid dictionary or object to extract fields from"
  | .notText => "Input should be a valid string"
  | .notList => "Input should be a valid list"
  | .malformed => "JSON decode error"

/-- A validation error: its kind, its location and the value found there. -/
structure PayloadDefect where
  place : List Place
  fault : PayloadFault
  culprit : Json

inductive PayloadKind
  | tools
  | submission
  | instructions
  | plan
deriving DecidableEq, Repr

inductive PayloadError
  /-- The body cannot be decoded, or a limit of the reader is exceeded. -/
  | undecodable
  | defective (defects : List PayloadDefect)

def bodyPlace : Place := .key "body"

def readBody (bytes : List UInt8) : Except PayloadError Json :=
  if bytes.isEmpty then .error (.defective [⟨[bodyPlace], .missing, .null⟩])
  else
    match Text.ofBytes bytes with
    | none => .error .undecodable
    | some text =>
      match Json.readDocument text with
      | .ok v => .ok v
      | .error (.malformed _ remaining) =>
        .error (.defective [⟨[bodyPlace, .index (text.length - remaining)], .malformed, .obj []⟩])
      | .error _ => .error .undecodable

def readFields (body : Json) : Except PayloadError (List (Text × Json)) :=
  match body with
  | .obj fields => .ok fields
  | _ => .error (.defective [⟨[bodyPlace], .notObject, body⟩])

def requireField (fields : List (Text × Json)) (key : Text) : Except PayloadError Json :=
  match (Json.obj fields).field? key with
  | some v => .ok v
  | none => .error (.defective [⟨[bodyPlace, .key key], .missing, .obj fields⟩])

def readText (key : Text) (v : Json) : Except PayloadError Text :=
  match v with
  | .str s => .ok s
  | _ => .error (.defective [⟨[bodyPlace, .key key], .notText, v⟩])

/-- The errors of items that are not strings; `index` is the index of the first item. -/
def itemDefects (key : Text) : (index : Nat) → List Json → List PayloadDefect
  | _, [] => []
  | index, .str _ :: items => itemDefects key (index + 1) items
  | index, v :: items => ⟨[bodyPlace, .key key, .index index], .notText, v⟩ :: itemDefects key (index + 1) items

def readTexts (key : Text) (v : Json) : Except PayloadError (List Text) :=
  match v with
  | .arr items =>
    match itemDefects key 0 items with
    | [] => .ok (items.filterMap Json.str?)
    | defects => .error (.defective defects)
  | _ => .error (.defective [⟨[bodyPlace, .key key], .notList, v⟩])

/-- The string under the only field of a body. -/
def textPayload (key : Text) (bytes : List UInt8) : Except PayloadError Text := do
  let fields ← readFields (← readBody bytes)
  readText key (← requireField fields key)

/-- The list of strings under the only field of a body. -/
def textsPayload (key : Text) (bytes : List UInt8) : Except PayloadError (List Text) := do
  let fields ← readFields (← readBody bytes)
  readTexts key (← requireField fields key)

structure PlanPayload where
  plan : Json
  enabled : Option (List Text)

/-- The payload of `/validate` and `/execute`. Both fields may be missing or null. -/
def planPayload (bytes : List UInt8) : Except PayloadError PlanPayload := do
  let fields ← readFields (← readBody bytes)
  let plan := ((Json.obj fields).field? "plan").getD .null
  match (Json.obj fields).field? "enabled_tools" with
  | none | some .null => return ⟨plan, none⟩
  | some v => return ⟨plan, some (← readTexts "enabled_tools" v)⟩

end BrowserPilot.Service
