import BrowserPilot.Text.Hex
import BrowserPilot.Text.Printable

/-! Quoted text, with escapes for the quotation mark, the backslash and characters that are not printable. -/
namespace BrowserPilot.Text.Quoted

/-- The quotation mark: an apostrophe, unless the text contains apostrophes and no double quotation mark. -/
def mark (cs : List CodePoint) : CodePoint :=
  if cs.contains '\x27' && !cs.contains '"' then '"' else '\x27'

/-- The shortest of the three numeric escapes. -/
def numericEscape (c : CodePoint) : List CodePoint :=
  if c.toNat < 0x100 then .char '\\' :: .char 'x' :: hexFixed 2 c.toNat
  else if c.toNat < 0x10000 then .char '\\' :: .char 'u' :: hexFixed 4 c.toNat
  else .char '\\' :: .char 'U' :: hexFixed 8 c.toNat

def escape (q c : CodePoint) : List CodePoint :=
  if c == q || c == '\\' then ['\\', c]
  else if c == '\n' then ['\\', 'n']
  else if c == '\r' then ['\\', 'r']
  else if c == '\t' then ['\\', 't']
  else if isPrintable c then [c]
  else numericEscape c

def encode (cs : List CodePoint) : List CodePoint :=
  mark cs :: cs.flatMap (escape (mark cs)) ++ [mark cs]

end Quoted

def quoted (s : Text) : Text := Text.ofList (Quoted.encode s.toList)

end BrowserPilot.Text
