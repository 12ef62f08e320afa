import BrowserPilot.Text.Basic

/-! Words for truth values. -/
namespace BrowserPilot.Text

def falseWords : List Text := ["0", "f", "n", "no", "off", "false"]

def trueWords : List Text := ["1", "t", "y", "on", "yes", "true"]

def truth? (s : Text) : Option Bool :=
  if falseWords.contains s.toLower then some false
  else if trueWords.contains s.toLower then some true
  else none

end BrowserPilot.Text
