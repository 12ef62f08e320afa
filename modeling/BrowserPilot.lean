import BrowserPilot.AgentKind
import BrowserPilot.Main
import BrowserPilot.Proofs.Browser.Teardown
import BrowserPilot.Proofs.Plan.Acceptance
import BrowserPilot.Service
import BrowserPilot.Settings.Launch
import BrowserPilot.Settings.ModelAccess
import BrowserPilot.StepResult.Defect
import BrowserPilot.Proofs.Browser.Results
import BrowserPilot.Proofs.Agent.Resolution
import BrowserPilot.Proofs.Browser.PageCalls
import BrowserPilot.Proofs.Service.Containment
import BrowserPilot.Proofs.Agent.Account
import BrowserPilot.Proofs.Browser.Interruption
import BrowserPilot.Proofs.Agent.Selection
import BrowserPilot.Proofs.Json.Numerals
import BrowserPilot.Proofs.Json.RoundTrip
import BrowserPilot.Proofs.Plan.Delivery
import BrowserPilot.Proofs.Browser.Isolation
import BrowserPilot.Proofs.Transcript.Export
import BrowserPilot.Proofs.Agent.Additions
import BrowserPilot.Proofs.Service.Bookkeeping
import BrowserPilot.Proofs.Service.Judgement
import BrowserPilot.Proofs.Json.Grammar
import BrowserPilot.Proofs.Json.Derivation
import BrowserPilot.Proofs.Json.Limits
import BrowserPilot.Proofs.ModelReply.Reading
import BrowserPilot.Proofs.Plan.Report
import BrowserPilot.Proofs.Plan.Normalisation
import BrowserPilot.Proofs.Plan.Permission
import BrowserPilot.Proofs.Text.Letters
import BrowserPilot.Proofs.Text.Patterns
import BrowserPilot.Proofs.Browser.Visibility
import BrowserPilot.Proofs.Url.Addresses
import BrowserPilot.Proofs.Browser.Reopening
import BrowserPilot.Proofs.Agent.Requests
import BrowserPilot.Proofs.Agent.Independence
import BrowserPilot.Proofs.Json.Layout
import BrowserPilot.Proofs.Transcript.Fidelity
import BrowserPilot.Proofs.Text.Lines
import BrowserPilot.Proofs.Agent.Briefing
import BrowserPilot.Proofs.Browser.ScreenshotNames
import BrowserPilot.Proofs.FilePath.Normal
import BrowserPilot.Proofs.Browser.ScreenshotPaths
import BrowserPilot.Proofs.StepResult.Decoding
