import BrowserPilot.Text.Hex

/-! Percent escapes: a percent sign and two hexadecimal digits stand for a byte. -/
namespace BrowserPilot.Text

/-- The character of a byte, which is the replacement character beyond ASCII. -/
def byteChar (n : Nat) : CodePoint := if n < 0x80 then CodePoint.ofNat n else '\ufffd'

/-- Decodes percent escapes. A percent sign without two digits stays. -/
def unescapePercent : List CodePoint → List CodePoint
  | .char '%' :: a :: b :: cs =>
    match hexValue? a, hexValue? b with
    | some high, some low => byteChar (16 * high + low) :: unescapePercent cs
    | _, _ => .char '%' :: unescapePercent (a :: b :: cs)
  | c :: cs => c :: unescapePercent cs
  | [] => []

end BrowserPilot.Text
