import BrowserPilot.Proofs.Json.Numerals
import BrowserPilot.Proofs.Json.Strings

/-! Reading and writing of scalars and keys, which are distinguished by their first character. -/
namespace BrowserPilot.Json

variable {r : List CodePoint} {c : CodePoint}

theorem ne_of_isDigit (h : c.isDigit = true) {a : CodePoint} (ha : a.isDigit = false) : c ≠ a := by
  rintro rfl
  rw [h] at ha
  cases ha

theorem skipSpace_of_not_isSpace (h : isSpace c = false) (s : List CodePoint) : skipSpace (c :: s) = c :: s := by
  simp [skipSpace, h]

theorem exists_signedNumeral (n : Int) :
    ∃ c cs, Decimal.signedNumeral n = c :: cs ∧ (c.isDigit = true ∨ c = '-') := by
  cases n with
  | ofNat n =>
    obtain ⟨c, cs, hc, hd⟩ := exists_digit_numeral n
    exact ⟨c, cs, hc, .inl hd⟩
  | negSucc n => exact ⟨_, _, rfl, .inr rfl⟩

theorem readLeaf_printString {s : Text} (h : Unpaired s.toList) (r : List CodePoint) :
    readLeaf (printString s ++ r) = .ok (.str s, r) := by
  have hp : printString s ++ r = .char '"' :: (s.toList.flatMap escape ++ .char '"' :: r) := by simp [printString]
  rw [hp, readLeaf, (characters_escape h).readString_append]
  simp only [Except.map, Text.ofList_toList]

theorem readLeaf_digit (h : c.isDigit = true) (s : List CodePoint) : readLeaf (c :: s) = readNumber (c :: s) := by
  rw [readLeaf]
  all_goals
    intro r he
    exact ne_of_isDigit h rfl (List.cons.inj he).1

theorem readLeaf_minus (h : c.isDigit = true) (s : List CodePoint) :
    readLeaf (.char '-' :: c :: s) = readNumber (.char '-' :: c :: s) := by
  rw [readLeaf]
  all_goals
    intro r he
    simp only [List.cons.injEq, CodePoint.char.injEq, Char.reduceEq, false_and, true_and] at he
  exact ne_of_isDigit h rfl he.1

theorem readLeaf_signedNumeral {n : Int} (hn : (Decimal.numeral n.natAbs).length ≤ digitLimit) (h : EndsNumeral r) :
    readLeaf (Decimal.signedNumeral n ++ r) = .ok (.int n, r) := by
  have hr := readNumber_signedNumeral hn h
  cases n with
  | ofNat n =>
    obtain ⟨c, cs, hc, hd⟩ := exists_digit_numeral n
    simp only [Decimal.signedNumeral, hc, List.cons_append] at hr ⊢
    exact (readLeaf_digit hd _).trans hr
  | negSucc n =>
    obtain ⟨c, cs, hc, hd⟩ := exists_digit_numeral (n + 1)
    simp only [Decimal.signedNumeral, hc, List.cons_append] at hr ⊢
    exact (readLeaf_minus hd _).trans hr

theorem readValue_of_ne (depth : Nat) (ha : c ≠ '[') (ho : c ≠ '{') (s : List CodePoint) :
    readValue depth (c :: s) = readLeaf (c :: s) := by
  cases depth <;> rw [readValue] <;> simp [ha, ho]

end BrowserPilot.Json
