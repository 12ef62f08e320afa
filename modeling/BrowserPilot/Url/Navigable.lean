import BrowserPilot.Url.Authority
import BrowserPilot.Url.Split

/-! The URLs that the browser may navigate to. -/
namespace BrowserPilot.Url

inductive Refusal
  | malformed (url : Text) (fault : Fault)
  | scheme (scheme : Text)
  | noHost (url : Text)
deriving DecidableEq, Repr

def Refusal.message : Refusal → Text
  | .malformed url fault => "Invalid URL: \"" ++ url ++ "\" - " ++ fault.message
  | .scheme got => "Only http and https URLs are allowed, got \"" ++ got ++ ":\""
  | .noHost url => "Invalid URL: \"" ++ url ++ "\" - missing host"

def allowedSchemes : List Text := ["http", "https"]

/-- Checks the scheme and the host of a URL. -/
def navigable (url : Text) : Except Refusal Text :=
  let parts := split url.toList
  match Authority.fault? parts.authority with
  | some fault => .error (.malformed url fault)
  | none =>
    if !allowedSchemes.contains (.ofList parts.scheme) then .error (.scheme (Text.ofList parts.scheme))
    else if parts.authority.isEmpty then .error (.noHost url)
    else .ok url

theorem navigable_eq_self {url out : Text} (h : navigable url = .ok out) : out = url := by
  simp only [navigable] at h
  split at h
  · simp at h
  · split at h
    · simp at h
    · split at h
      · simp at h
      · exact (Except.ok.inj h).symm

end BrowserPilot.Url
