import BrowserPilot.Settings

/-! The arguments of the chat model. -/
namespace BrowserPilot

structure ModelAccess where
  model : Text
  key : Option Text
  url : Option Text
  temperature : Binary64
deriving DecidableEq, Repr

namespace ModelAccess

/-- An argument that is given and not empty. -/
def wish? (wish : Option Text) : Option Text := wish.filter fun s => !s.isEmpty

/-- Explicit arguments take precedence over settings. -/
def ofSettings (s : Settings) (key url model : Option Text) : ModelAccess where
  model := (wish? model).getD s.modelName
  key := (wish? key).or s.modelKey
  url := (wish? url).or s.modelUrl
  temperature := s.temperature

end ModelAccess

end BrowserPilot
