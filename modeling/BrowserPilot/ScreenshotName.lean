import BrowserPilot.Text.Basic

/-! Sanitized file names of screenshots. -/
namespace BrowserPilot.ScreenshotName

def isAllowed (c : CodePoint) : Bool := c.isAlphanum || c == '_' || c == '.' || c == '-'

/-- Slash and backslash both separate directories. -/
def isSeparator (c : CodePoint) : Bool := c == '/' || c == '\\'

def lastPart (cs : List CodePoint) : List CodePoint := (cs.reverse.takeWhile fun c => !isSeparator c).reverse

/-- Whether a name needs no change: only allowed characters, and not only dots. -/
def isSafe (cs : List CodePoint) : Bool := cs.all isAllowed && cs.any (· != CodePoint.char '.')

/-- The allowed characters of the last path component, or the fallback if only dots are left. -/
def sanitize (name : Text) (fallback : Text) : Text :=
  let kept := (lastPart name.toList).filter isAllowed
  if kept.any (· != CodePoint.char '.') then Text.ofList kept else fallback

def fallback : Text := "screenshot"

def fileName (name : Text) : Text := sanitize name fallback ++ ".png"

theorem isSafe_sanitize_or (name fallback : Text) :
    isSafe (sanitize name fallback).toList = true ∨ sanitize name fallback = fallback := by
  by_cases h : ((lastPart name.toList).filter isAllowed).any (· != CodePoint.char '.') = true
  · refine .inl ?_
    simp only [sanitize, h, if_true, isSafe, Text.toList_ofList, Bool.and_true]
    exact List.all_eq_true.mpr fun c hc => (List.mem_filter.mp hc).2
  · exact .inr (by simp [sanitize, h])

end BrowserPilot.ScreenshotName
