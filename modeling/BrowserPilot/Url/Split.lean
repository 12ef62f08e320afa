import BrowserPilot.Text.Basic

/-! Scheme and authority of a URL. -/
namespace BrowserPilot.Url

def isLeading (c : CodePoint) : Bool := c.toNat ≤ 0x20

/-- Tabs and line breaks are removed everywhere in a URL. -/
def isIgnored (c : CodePoint) : Bool := c == '\t' || c == '\n' || c == '\r'

/-- A URL without leading controls and blanks, tabs and line breaks. -/
def clean (url : List CodePoint) : List CodePoint := (url.dropWhile isLeading).filter fun c => !isIgnored c

def isSchemeChar (c : CodePoint) : Bool := c.isAlphanum || c == '+' || c == '-' || c == '.'

def isScheme : List CodePoint → Bool
  | [] => false
  | c :: cs => c.isAlpha && cs.all isSchemeChar

def isDelimiter (c : CodePoint) : Bool := c == '/' || c == '?' || c == '#'

structure Parts where
  scheme : List CodePoint
  authority : List CodePoint
deriving DecidableEq, Repr

/-- The scheme in lower case and the text after its colon, or no scheme and the whole text. -/
def splitScheme (cs : List CodePoint) : List CodePoint × List CodePoint :=
  match cs.dropWhile fun c : CodePoint => c != ':' with
  | .char ':' :: rest =>
    let scheme := cs.takeWhile fun c : CodePoint => c != ':'
    if isScheme scheme then (scheme.map CodePoint.toLower, rest) else ([], cs)
  | _ => ([], cs)

def authorityOf : List CodePoint → List CodePoint
  | .char '/' :: .char '/' :: rest => rest.takeWhile fun c => !isDelimiter c
  | _ => []

/-- The parts of a URL, which are empty if missing. -/
def split (url : List CodePoint) : Parts :=
  let (scheme, rest) := splitScheme (clean url)
  ⟨scheme, authorityOf rest⟩

end BrowserPilot.Url
