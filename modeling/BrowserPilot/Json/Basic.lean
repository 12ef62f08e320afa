import BrowserPilot.Text.Basic
import BrowserPilot.Binary64

/-! JSON values. Integers and floats are different values, and the fields of an object are ordered. -/
namespace BrowserPilot

inductive Json
  | null
  | bool (b : Bool)
  | int (n : Int)
  | float (x : Binary64)
  | str (s : Text)
  | arr (items : List Json)
  | obj (fields : List (Text × Json))

namespace Json

instance : Inhabited Json := ⟨.null⟩

/-- Sets a field: an existing key keeps its position and takes the new value, a new key is appended. -/
def setField (key : Text) (v : Json) : List (Text × Json) → List (Text × Json)
  | [] => [(key, v)]
  | (k, w) :: fields => if k = key then (k, v) :: fields else (k, w) :: setField key v fields

/-- The object built from pairs, in which a repeated key keeps its first position and takes its last value. -/
def ofPairs (pairs : List (Text × Json)) : Json :=
  .obj (pairs.foldl (fun fields p => setField p.1 p.2 fields) [])

def field? (key : Text) : Json → Option Json
  | .obj fields => fields.lookup key
  | _ => none

def str? : Json → Option Text
  | .str s => some s
  | _ => none

theorem keys_setField_of_mem {key : Text} {v : Json} {fields : List (Text × Json)}
    (h : key ∈ fields.map Prod.fst) : (setField key v fields).map Prod.fst = fields.map Prod.fst := by
  induction fields with
  | nil => simp at h
  | cons p fields ih =>
    by_cases hk : p.1 = key
    · simp [setField, hk]
    · simp only [List.map_cons, List.mem_cons] at h
      simp [setField, hk, ih (h.resolve_left fun e => hk e.symm)]

theorem setField_of_notMem {key : Text} {v : Json} {fields : List (Text × Json)}
    (h : key ∉ fields.map Prod.fst) : setField key v fields = fields ++ [(key, v)] := by
  induction fields with
  | nil => rfl
  | cons p fields ih =>
    simp only [List.map_cons, List.mem_cons, not_or] at h
    have hk : p.1 ≠ key := Ne.symm h.1
    simp [setField, hk, ih h.2]

theorem lookup_setField_self (key : Text) (v : Json) (fields : List (Text × Json)) :
    (setField key v fields).lookup key = some v := by
  induction fields with
  | nil => simp [setField]
  | cons p fields ih =>
    obtain ⟨k, w⟩ := p
    by_cases hk : k = key
    · simp [setField, hk]
    · have hb : (key == k) = false := beq_false_of_ne (Ne.symm hk)
      simp [setField, hk, List.lookup_cons, hb, ih]

end Json

end BrowserPilot
