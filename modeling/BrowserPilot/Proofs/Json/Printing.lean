import BrowserPilot.Proofs.Json.RoundTrip

/-! Written JSON consists of characters, so it can be encoded, and values within the limits of the reader can be
written. -/
namespace BrowserPilot

namespace Json
open Text

/-! ### Numbers -/

theorem isChar_of_isDigit {c : CodePoint} (h : c.isDigit = true) : c.isChar = true := by
  simp only [CodePoint.isDigit, Bool.and_eq_true, decide_eq_true_eq] at h
  by_contra hc
  have := (CodePoint.isChar_eq_false_iff.mp (eq_false_of_ne_true hc)).1
  omega

theorem plain_numeral (n : Nat) : Plain (Decimal.numeral n) := fun _ hc =>
  isChar_of_isDigit (Decimal.isDigit_of_mem_numeral hc)

theorem plain_signedNumeral (n : Int) : Plain (Decimal.signedNumeral n) := by
  cases n <;> simp [Decimal.signedNumeral, plain_numeral]

theorem plain_exponentText (e : Int) : Plain (Binary64.exponentText e) := by
  unfold Binary64.exponentText
  refine plain_cons.mpr ⟨?_, ?_⟩
  · split <;> rfl
  · split <;> simp [plain_numeral]

theorem plain_layout (d : Binary64.Decimal) : Plain (Binary64.layout d) := by
  have hd := plain_numeral d.digits
  unfold Binary64.layout
  generalize Decimal.numeral d.digits = digits at hd ⊢
  dsimp only
  split_ifs
  · split <;> simp_all [plain_exponentText]
  · simp [hd]
  · simp [hd.sublist (List.take_sublist _ _), hd.sublist (List.drop_sublist _ _)]
  · simp [hd]

theorem plain_render {spelling : Binary64.Spelling} (hn : Plain spelling.nan.toList)
    (hi : Plain spelling.infinity.toList) (x : Binary64) : Plain (x.render spelling) := by
  cases x with
  | nan => exact hn
  | infinite negative => cases negative <;> simpa [Binary64.render] using hi
  | finite negative m q =>
    refine plain_append.mpr ⟨?_, ?_⟩
    · cases negative <;> simp
    · split <;> simp [plain_layout]

/-! ### Values -/

theorem plain_printString (s : Text) : Plain (printString s) := by
  simp [printString, plain_flatMap_escape]

theorem plain_printLeaf (v : Json) : Plain (printLeaf v) := by
  cases v with
  | bool b => cases b <;> simp [printLeaf]
  | int n => exact plain_signedNumeral n
  | float x => exact plain_render (by simp [spelling]) (by simp [spelling]) x
  | str s => exact plain_printString s
  | _ => simp [printLeaf]

mutual

theorem plain_print : (v : Json) → Plain v.print
  | .arr [] | .obj [] => by simp [print]
  | .arr (v :: items) => by simp [print, plain_print v, plain_printItems items]
  | .obj ((k, v) :: fields) => by simp [print, plain_printString k, plain_print v, plain_printFields fields]
  | .null | .bool _ | .int _ | .float _ | .str _ => by
    simp [print, plain_printLeaf]

theorem plain_printItems : (items : List Json) → Plain (printItems items)
  | [] => by simp [printItems]
  | v :: items => by simp [printItems, plain_print v, plain_printItems items]

theorem plain_printFields : (fields : List (Text × Json)) → Plain (printFields fields)
  | [] => by simp [printFields]
  | (k, v) :: fields => by simp [printFields, plain_printString k, plain_print v, plain_printFields fields]

end

theorem plain_newline (depth : Nat) : Plain (newline depth) := by simp [newline]

mutual

theorem plain_printIndented (depth : Nat) : (v : Json) → Plain (v.printIndented depth)
  | .arr [] | .obj [] => by simp [printIndented]
  | .arr (v :: items) => by
    simp [printIndented, plain_newline, plain_printIndented _ v, plain_printIndentedItems _ items]
  | .obj ((k, v) :: fields) => by
    simp [printIndented, plain_newline, plain_printString k, plain_printIndented _ v,
      plain_printIndentedFields _ fields]
  | .null | .bool _ | .int _ | .float _ | .str _ => by
    simp [printIndented, plain_printLeaf]

theorem plain_printIndentedItems (depth : Nat) : (items : List Json) → Plain (printIndentedItems depth items)
  | [] => by simp [printIndentedItems, plain_newline]
  | v :: items => by
    simp [printIndentedItems, plain_newline, plain_printIndented _ v, plain_printIndentedItems _ items]

theorem plain_printIndentedFields (depth : Nat) :
    (fields : List (Text × Json)) → Plain (printIndentedFields depth fields)
  | [] => by simp [printIndentedFields, plain_newline]
  | (k, v) :: fields => by
    simp [printIndentedFields, plain_newline, plain_printString k, plain_printIndented _ v,
      plain_printIndentedFields _ fields]

end

theorem isEncodable_compact (v : Json) : v.compact.isEncodable = true := isEncodable_iff_plain.mpr (plain_print v)

theorem isEncodable_pretty (v : Json) : v.pretty.isEncodable = true :=
  isEncodable_iff_plain.mpr (plain_printIndented 0 v)

/-! ### Limits -/

theorem itemsError?_eq_none {depth : Nat} {items : List Json} (h : ∀ v ∈ items, printError? depth v = none) :
    itemsError? depth items = none := by
  induction items with
  | nil => rfl
  | cons v items ih =>
    rw [List.forall_mem_cons] at h
    rw [itemsError?, h.1, ih h.2]
    rfl

theorem fieldsError?_eq_none {depth : Nat} {fields : List (Text × Json)}
    (h : ∀ p ∈ fields, printError? depth p.2 = none) : fieldsError? depth fields = none := by
  induction fields with
  | nil => rfl
  | cons p fields ih =>
    obtain ⟨k, v⟩ := p
    rw [List.forall_mem_cons] at h
    rw [fieldsError?, h.1, ih h.2]
    rfl

theorem Regular.printError?_eq_none {depth : Nat} {v : Json} (h : Regular depth v) : printError? depth v = none := by
  induction h with
  | int h => exact if_neg (Nat.not_lt.mpr h)
  | arr _ ih => exact itemsError?_eq_none ih
  | obj _ _ _ ih => exact fieldsError?_eq_none ih
  | _ => rfl

end Json

end BrowserPilot
