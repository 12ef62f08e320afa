import BrowserPilot.Text.Basic

/-! Hexadecimal numerals of a fixed width. -/
namespace BrowserPilot.Text

def hexDigit (n : Nat) : CodePoint :=
  if n < 10 then CodePoint.ofNat (0x30 + n) else CodePoint.ofNat (0x57 + n)

def hexValue? (c : CodePoint) : Option Nat :=
  let n := c.toNat
  if 0x30 ≤ n && n ≤ 0x39 then some (n - 0x30)
  else if 0x61 ≤ n && n ≤ 0x66 then some (n - 0x57)
  else if 0x41 ≤ n && n ≤ 0x46 then some (n - 0x37)
  else none

/-- The last `width` hexadecimal digits of a number, with leading zeros. -/
def hexFixed : (width : Nat) → Nat → List CodePoint
  | 0, _ => []
  | width + 1, n => hexFixed width (n / 16) ++ [hexDigit (n % 16)]

theorem hexValue?_hexDigit : ∀ n < 16, hexValue? (hexDigit n) = some n := by decide

end BrowserPilot.Text
