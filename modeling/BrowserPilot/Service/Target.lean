import BrowserPilot.Text.Percent
import BrowserPilot.Text.Pieces
import BrowserPilot.Url.Authority
import BrowserPilot.Url.Split

/-! The path that a request target is routed by. A target is a URL or a part of one. -/
namespace BrowserPilot.Service.Target

/-- Appends a segment to a path: a dot is dropped, and two dots remove the last segment. -/
def enter (path : List (List CodePoint)) (segment : List CodePoint) : List (List CodePoint) :=
  if segment = [.char '.'] then path
  else if segment = [.char '.', .char '.'] then if path = [[]] then path else path.dropLast
  else path ++ [segment]

/-- Removes dot segments from a path. -/
def straighten (path : List CodePoint) : List CodePoint :=
  Text.joinPieces '/' ((Text.pieces '/' path).foldl enter [])

/-- The scheme and the text after its colon. A colon at the start follows an empty scheme. -/
def splitScheme : List CodePoint → List CodePoint × List CodePoint
  | .char ':' :: rest => ([], rest)
  | cs => Url.splitScheme cs

def afterAuthority : List CodePoint → List CodePoint
  | .char '/' :: .char '/' :: rest => rest.dropWhile (· != CodePoint.char '/')
  | rest => rest

/-- Whether an authority has a host between user and port. -/
def namesHost (authority : List CodePoint) : Bool :=
  (Url.Authority.afterUser authority).head?.any (· != CodePoint.char ':')

def emptyAuthorities : List Text := ["", "@", ":", "@:"]

/-- The path of a target, up to a query or a fragment. A target with neither scheme nor authority is all path;
without scheme and host the path is made absolute. -/
def path (target : List CodePoint) : List CodePoint :=
  let (scheme, rest) := splitScheme (target.takeWhile fun c => c != '?' && c != '#')
  let authority := Url.authorityOf rest
  let isPath := scheme.isEmpty && emptyAuthorities.contains (Text.ofList authority)
  let own := if isPath then afterAuthority rest else straighten (afterAuthority rest)
  if scheme.isEmpty || !namesHost authority then straighten (.char '/' :: own.dropWhile (· == CodePoint.char '/'))
  else own

/-- Removes slashes at the end of a path, and a line break after them. -/
def trimEnd (path : List CodePoint) : List CodePoint :=
  match path.reverse.dropWhile (· == CodePoint.char '/') with
  | .char '\n' :: rest => rest.reverse
  | rest => rest.reverse

/-- The path that is routed. Escapes are decoded twice, by the client and by the server. -/
def place (target : Text) : Text :=
  Text.ofList (trimEnd (Text.unescapePercent (Text.unescapePercent (path target.toList))))

end BrowserPilot.Service.Target
