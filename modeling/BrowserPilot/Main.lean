import BrowserPilot.Settings.Launch

/-! The program: it loads the settings from the environment and prints how the service is started. -/
namespace BrowserPilot.Main

/-- The environment variables of the settings, in lower or upper case. -/
def environment : IO (List (Text × Text)) := do
  let mut found := []
  for name in Settings.names do
    for spelling in [name, name.toUpper].filterMap Text.string? do
      if let some value ← IO.getEnv spelling then
        found := found ++ [((spelling : Text), (value : Text))]
  return found

def line (text : Text) : String := text.string?.getD ""

end BrowserPilot.Main

open BrowserPilot BrowserPilot.Main in
def main : IO UInt32 := do
  match Settings.load (← environment) with
  | .ok settings =>
    IO.println (line settings.launch.announcement)
    return 0
  | .error e =>
    IO.eprintln (line e.message)
    return 1
