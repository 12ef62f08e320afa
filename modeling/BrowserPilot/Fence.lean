import BrowserPilot.Text.Blank

/-! Code fences: three backticks and an optional word, the fenced text from the next line on, three backticks. -/
namespace BrowserPilot.Fence

def mark : List CodePoint := ['\x60', '\x60', '\x60']

/-- The text before a closing mark, if the text ends with one. -/
def beforeMark? (s : List CodePoint) : Option (List CodePoint) :=
  match s.reverse with
  | .char '\x60' :: .char '\x60' :: .char '\x60' :: r => some r.reverse
  | _ => none

/-- The stripped text inside a code fence that surrounds the whole text. The opening mark with its language ends at
a line break, before which blanks may stand. -/
def content? (s : List CodePoint) : Option (List CodePoint) :=
  match s with
  | .char '\x60' :: .char '\x60' :: .char '\x60' :: r =>
    let r := r.dropWhile CodePoint.isAlpha
    if (r.takeWhile Text.isBlank).contains '\n' then (beforeMark? r).map Text.trim else none
  | _ => none

def strip (s : List CodePoint) : List CodePoint := (content? s).getD s

end BrowserPilot.Fence
