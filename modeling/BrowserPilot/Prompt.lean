import BrowserPilot.Tool

/-! The prompts for the model. -/
namespace BrowserPilot.Prompt

def preamble : List Text :=
  ["You are a Playwright automation assistant.",
   "You MUST return ONLY valid JSON in this exact format: \x7b \"steps\": [ ... ] \x7d",
   "If you need clarification, return: \x7b \"clarification\": \"your question here\" \x7d",
   "Do NOT assume missing information. Ask before proceeding if unsure.",
   "Available tools:"]

def closing : List Text := ["ONLY use tools from the available list above."]

/-- The system prompt: the format of answers, and one line for each active tool. -/
def system (selection : List Text) : Text :=
  Text.joinLines (preamble ++ (activeTools selection).map describeName ++ closing)

def request (task : Text) : Text := "User request: " ++ task

/-- The user message that asks for a summary of executed steps. -/
def summary (report : Text) : Text :=
  Text.joinLines ["The following Playwright steps were executed:", report,
    "Please provide a brief summary of what happened."]

end BrowserPilot.Prompt
