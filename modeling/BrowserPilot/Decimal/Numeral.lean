import BrowserPilot.Text.Basic

/-! Decimal numerals of natural numbers: writing without leading zeros, and reading. -/
namespace BrowserPilot.Decimal

def digitChar (n : Nat) : CodePoint := CodePoint.ofNat (0x30 + n)

def digitValue (c : CodePoint) : Nat := c.toNat - 0x30

/-- The decimal digits of a number, without leading zeros. -/
def numeral (n : Nat) : List CodePoint :=
  if n < 10 then [digitChar n] else numeral (n / 10) ++ [digitChar (n % 10)]

def signedNumeral : Int → List CodePoint
  | .ofNat n => numeral n
  | .negSucc n => .char '-' :: numeral (n + 1)

def value (cs : List CodePoint) : Nat := cs.foldl (fun n c => 10 * n + digitValue c) 0

private theorem digitValue_digitChar_all : ∀ n < 10, digitValue (digitChar n) = n := by decide

private theorem isDigit_digitChar_all : ∀ n < 10, (digitChar n).isDigit = true := by decide

private theorem digitChar_ne_zero_all : ∀ n < 10, n ≠ 0 → digitChar n ≠ '0' := by decide

theorem value_concat (cs : List CodePoint) (c : CodePoint) : value (cs ++ [c]) = 10 * value cs + digitValue c := by
  simp [value]

theorem value_numeral (n : Nat) : value (numeral n) = n := by
  fun_induction numeral n with
  | case1 n h => simp [value, digitValue_digitChar_all n h]
  | case2 n h ih => rw [value_concat, ih, digitValue_digitChar_all _ (by omega)]; omega

theorem isDigit_of_mem_numeral {n : Nat} {c : CodePoint} (h : c ∈ numeral n) : c.isDigit = true := by
  fun_induction numeral n with
  | case1 n hn => simp only [List.mem_singleton] at h; exact h ▸ isDigit_digitChar_all n hn
  | case2 n hn ih =>
    rcases List.mem_append.1 h with h | h
    · exact ih h
    · simp only [List.mem_singleton] at h; exact h ▸ isDigit_digitChar_all _ (by omega)

theorem numeral_ne_nil (n : Nat) : numeral n ≠ [] := by
  rw [numeral]; split <;> simp

theorem head?_numeral_ne_zero {n : Nat} (h : n ≠ 0) : (numeral n).head? ≠ some (.char '0') := by
  fun_induction numeral n with
  | case1 n hn => simpa using digitChar_ne_zero_all n hn h
  | case2 n hn ih =>
    have ih := ih (by omega)
    cases hd : numeral (n / 10) with
    | nil => exact absurd hd (numeral_ne_nil _)
    | cons c cs => simpa [hd] using ih

end BrowserPilot.Decimal
