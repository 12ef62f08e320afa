import BrowserPilot.Settings

/-! The arguments with which the service is started. -/
namespace BrowserPilot

structure Launch where
  /-- 10 while debugging, otherwise 20. -/
  logLevel : Nat
  app : Text
  host : Text
  port : Int
  reload : Bool
deriving DecidableEq, Repr

def Settings.launch (s : Settings) : Launch where
  logLevel := if s.debug then 10 else 20
  app := "chat_runner.main:app"
  host := s.host
  port := s.port
  reload := s.debug

def Launch.announcement (l : Launch) : Text :=
  "Starting Playwright Chat Runner on " ++ l.host ++ ":" ++ toString l.port

end BrowserPilot
