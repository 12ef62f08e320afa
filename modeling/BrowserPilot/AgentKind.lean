import BrowserPilot.Failure

/-! The kinds of agents, with their names and descriptions. -/
namespace BrowserPilot

inductive AgentKind
  | base
  | automation
  | interpreter
deriving DecidableEq, Repr

namespace AgentKind

def name : AgentKind → Text
  | base => "base"
  | automation => "automation"
  | interpreter => "interpreter"

def description : AgentKind → Text
  | base => "Base agent"
  | automation => "Plans and executes browser actions from a chat message"
  | interpreter => "Summarizes what an executed plan did"

/-- The failure of `run` for an agent of this kind that is given no context. -/
def runFailure? : AgentKind → Option Failure
  | base => some .noTask
  | automation | interpreter => none

end AgentKind

end BrowserPilot
