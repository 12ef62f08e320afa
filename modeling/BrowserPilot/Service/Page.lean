import BrowserPilot.Text.Basic

/-! The documentation pages of the service. -/
namespace BrowserPilot.Service

inductive Page
  | explorer
  | signedIn
  | reference
deriving DecidableEq, Repr

namespace Page

def all : List Page := [explorer, signedIn, reference]

def path : Page → Text
  | explorer => "/docs"
  | signedIn => "/docs/oauth2-redirect"
  | reference => "/redoc"

end Page

end BrowserPilot.Service
