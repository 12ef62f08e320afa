import BrowserPilot.Json.Printer
import BrowserPilot.Json.Reader
import Mathlib.Data.List.Basic

/-! Reading inverts writing for integers, if the following text does not continue the numeral. -/
namespace BrowserPilot.Json

/-- A text that does not continue a numeral. -/
def EndsNumeral (r : List CodePoint) : Prop :=
  ∀ c s, r = c :: s → c.isDigit = false ∧ c ≠ '.' ∧ c ≠ 'e' ∧ c ≠ 'E'

theorem endsNumeral_nil : EndsNumeral [] := by
  intro c s h
  cases h

theorem endsNumeral_cons {c : CodePoint} (h : c.isDigit = false ∧ c ≠ '.' ∧ c ≠ 'e' ∧ c ≠ 'E') (r : List CodePoint) :
    EndsNumeral (c :: r) := by
  rintro c s ⟨⟩
  exact h

variable {r : List CodePoint}

theorem digits_append {ds : List CodePoint} (hd : ∀ c ∈ ds, c.isDigit = true)
    (h : ∀ c s, r = c :: s → c.isDigit = false) : digits (ds ++ r) = (ds, r) := by
  have hr : r.takeWhile CodePoint.isDigit = [] ∧ r.dropWhile CodePoint.isDigit = r := by
    cases r with
    | nil => exact ⟨rfl, rfl⟩
    | cons c s => simp [h c s rfl]
  rw [digits, List.takeWhile_append_of_pos hd, List.dropWhile_append_of_pos hd, hr.1, hr.2, List.append_nil]

theorem wholePart_numeral (n : Nat) (h : EndsNumeral r) :
    wholePart (Decimal.numeral n ++ r) = (Decimal.numeral n, r) := by
  by_cases hn : n = 0
  · have hz : Decimal.numeral n = ['0'] := by
      rw [hn, Decimal.numeral]
      rfl
    rw [hz]
    rfl
  · obtain ⟨c, cs, hc⟩ := List.exists_cons_of_ne_nil (Decimal.numeral_ne_nil n)
    have hz : c ≠ '0' := fun he => Decimal.head?_numeral_ne_zero hn (by rw [hc, he]; rfl)
    have hd : digits (Decimal.numeral n ++ r) = (Decimal.numeral n, r) :=
      digits_append (fun _ => Decimal.isDigit_of_mem_numeral) fun c s he => (h c s he).1
    rw [hc] at hd ⊢
    unfold wholePart
    split
    · rename_i he
      exact absurd (List.cons.inj he).1 hz
    · exact hd

theorem fractionPart_eq_none (h : EndsNumeral r) : fractionPart r = none := by
  unfold fractionPart
  split
  · rename_i s
    exact absurd rfl (h '.' s rfl).2.1
  · rfl

theorem exponentPart_eq_none (h : EndsNumeral r) : exponentPart r = none := by
  unfold exponentPart
  split
  · rename_i s
    exact absurd rfl (h 'e' s rfl).2.2.1
  · rename_i s
    exact absurd rfl (h 'E' s rfl).2.2.2
  · rfl

theorem exists_digit_numeral (n : Nat) :
    ∃ c cs, Decimal.numeral n = c :: cs ∧ c.isDigit = true := by
  obtain ⟨c, cs, hc⟩ := List.exists_cons_of_ne_nil (Decimal.numeral_ne_nil n)
  exact ⟨c, cs, hc, Decimal.isDigit_of_mem_numeral (by rw [hc]; exact List.mem_cons_self)⟩

theorem isEmpty_numeral (n : Nat) : (Decimal.numeral n).isEmpty = false := by
  simpa using Decimal.numeral_ne_nil n

theorem readNumber_minus (n : Nat) (h : EndsNumeral r) :
    readNumber (.char '-' :: (Decimal.numeral n ++ r)) =
      (wholeNumber true (Decimal.numeral n)).map fun v => (v, r) := by
  simp only [readNumber, wholePart_numeral n h, fractionPart_eq_none h, exponentPart_eq_none h, Option.elim,
    isEmpty_numeral, Bool.false_eq_true, if_false]

theorem readNumber_plain (n : Nat) (h : EndsNumeral r) :
    readNumber (Decimal.numeral n ++ r) = (wholeNumber false (Decimal.numeral n)).map fun v => (v, r) := by
  have hw := wholePart_numeral n h
  obtain ⟨c, cs, hc, hd⟩ := exists_digit_numeral n
  have hm : c ≠ '-' := by
    rintro rfl
    cases hd
  rw [hc, List.cons_append] at hw ⊢
  unfold readNumber
  split
  rename_i negative s hs
  split at hs
  · rename_i he
    exact absurd (List.cons.inj he).1 hm
  · obtain ⟨rfl, rfl⟩ := Prod.mk.inj hs
    simp only [hw, fractionPart_eq_none h, exponentPart_eq_none h, Option.elim, List.isEmpty_cons,
      Bool.false_eq_true, if_false]

theorem wholeNumber_numeral (negative : Bool) {n : Nat} (h : (Decimal.numeral n).length ≤ digitLimit) :
    wholeNumber negative (Decimal.numeral n) = .ok (.int (if negative then -n else n)) := by
  rw [wholeNumber, if_neg (by omega), Decimal.value_numeral]

/-- Reading inverts writing for integers within the digit limit. -/
theorem readNumber_signedNumeral {n : Int} (hn : (Decimal.numeral n.natAbs).length ≤ digitLimit)
    (h : EndsNumeral r) : readNumber (Decimal.signedNumeral n ++ r) = .ok (.int n, r) := by
  cases n with
  | ofNat n =>
    have hn : (Decimal.numeral n).length ≤ digitLimit := hn
    exact (readNumber_plain n h).trans (by rw [wholeNumber_numeral false hn]; rfl)
  | negSucc n =>
    have hn : (Decimal.numeral (n + 1)).length ≤ digitLimit := hn
    exact (readNumber_minus (n + 1) h).trans (by rw [wholeNumber_numeral true hn]; rfl)

end BrowserPilot.Json
