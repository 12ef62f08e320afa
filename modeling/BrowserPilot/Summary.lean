import BrowserPilot.ChatModel
import BrowserPilot.Prompt
import BrowserPilot.StepResult

/-! Summaries of executed steps. -/
namespace BrowserPilot.Summary

def nothingDone : Text := "No steps were executed."

/-- Asks the model to summarise results. No results need no request. -/
def ofResults (system : Text) (results : List StepResult) : Attempt ChatModel Text :=
  if results.isEmpty then return nothingDone
  else ChatModel.ask system (Prompt.summary (StepResult.report results))

end BrowserPilot.Summary
