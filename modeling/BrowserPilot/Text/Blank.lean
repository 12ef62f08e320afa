import BrowserPilot.Text.Basic

/-! Blank characters, and text without the blanks at its ends. -/
namespace BrowserPilot.Text

/-- Unicode whitespace and the information separators U+001C to U+001F. -/
def isBlank (c : CodePoint) : Bool :=
  let n := c.toNat
  (0x09 ≤ n && n ≤ 0x0D) || (0x1C ≤ n && n ≤ 0x20) || n == 0x85 || n == 0xA0 || n == 0x1680 ||
    (0x2000 ≤ n && n ≤ 0x200A) || n == 0x2028 || n == 0x2029 || n == 0x202F || n == 0x205F ||
    n == 0x3000

def trimLeft (cs : List CodePoint) : List CodePoint := cs.dropWhile isBlank

def trimRight (cs : List CodePoint) : List CodePoint := (cs.reverse.dropWhile isBlank).reverse

def trim (cs : List CodePoint) : List CodePoint := trimRight (trimLeft cs)

def strip (s : Text) : Text := Text.ofList (trim s.toList)

def stripRight (s : Text) : Text := Text.ofList (trimRight s.toList)

theorem trimRight_concat_of_isBlank {c : CodePoint} (h : isBlank c = true) (cs : List CodePoint) :
    trimRight (cs ++ [c]) = trimRight cs := by
  simp [trimRight, h]

theorem trimRight_concat_of_not_isBlank {c : CodePoint} (h : isBlank c = false) (cs : List CodePoint) :
    trimRight (cs ++ [c]) = cs ++ [c] := by
  simp [trimRight, h]

end BrowserPilot.Text
