import BrowserPilot.Text.Quoted
import BrowserPilot.Url.Numeric

/-! The faults of an authority: its brackets, the host inside them, and characters whose NFKC form contains a
delimiter. -/
namespace BrowserPilot.Url

inductive Fault
  | brackets
  | futureAddress
  | notNumeric (host : List CodePoint)
  | fourPartInBrackets
  | normalisation (authority : List CodePoint)
deriving DecidableEq, Repr

def Fault.message : Fault → Text
  | .brackets => "Invalid IPv6 URL"
  | .futureAddress => "IPvFuture address is invalid"
  | .notNumeric host => Text.quoted (Text.ofList host) ++ " does not appear to be an IPv4 or IPv6 address"
  | .fourPartInBrackets => "An IPv4 address cannot be in brackets"
  | .normalisation authority =>
    "netloc '" ++ Text.ofList authority ++ "' contains invalid characters under NFKC normalization"

namespace Authority

/-- The code points whose NFKC form contains one of `/ ? # @ :`. -/
def hiddenDelimiters : List Nat :=
  [0x2047, 0x2048, 0x2049, 0x2100, 0x2101, 0x2105, 0x2106, 0x2A74, 0xFE13, 0xFE16, 0xFE55, 0xFE56, 0xFE5F, 0xFE6B,
   0xFF03, 0xFF0F, 0xFF1A, 0xFF1F, 0xFF20]

def hidesDelimiter (c : CodePoint) : Bool := hiddenDelimiters.contains c.toNat

/-- An address of a future version: a version in hexadecimal, a dot, and more characters. -/
def isFuture : List CodePoint → Bool
  | .char 'v' :: cs =>
    let isHex := fun c => (Text.hexValue? c).isSome
    match cs.takeWhile isHex, cs.dropWhile isHex with
    | _ :: _, .char '.' :: _ :: _ => true
    | _, _ => false
  | _ => false

/-- The fault of a bracketed host that is no IPv6 address and none of a future version. -/
def hostFault? (host : List CodePoint) : Option Fault :=
  if host.head? = some (.char 'v') then
    if isFuture host then none else some .futureAddress
  else if isFourPart host then some .fourPartInBrackets
  else if isZoned host then none
  else some (.notNumeric host)

/-- The text after the last at sign. -/
def afterUser (authority : List CodePoint) : List CodePoint :=
  (authority.reverse.takeWhile (· != CodePoint.char '@')).reverse

/-- The fault of an authority with brackets. The host is the text between them, or before the port if the brackets
belong to the user. -/
def bracketFault? (authority : List CodePoint) : Option Fault :=
  let place := afterUser authority
  match place.dropWhile (· != CodePoint.char '[') with
  | [] => hostFault? (place.takeWhile (· != CodePoint.char ':'))
  | _ :: inner =>
    if place.head? != some (.char '[') then some .brackets
    else
      match inner.dropWhile (· != CodePoint.char ']') with
      | _ :: c :: _ => if c == ':' then hostFault? (inner.takeWhile (· != CodePoint.char ']')) else some .brackets
      | _ => hostFault? (inner.takeWhile (· != CodePoint.char ']'))

/-- The fault of an authority. Brackets are checked first. -/
def fault? (authority : List CodePoint) : Option Fault :=
  let opened := authority.contains '['
  let closed := authority.contains ']'
  let inBrackets :=
    if opened && closed then bracketFault? authority
    else if opened || closed then some .brackets
    else none
  inBrackets.orElse fun _ => if authority.any hidesDelimiter then some (.normalisation authority) else none

end Authority

end BrowserPilot.Url
