import BrowserPilot.Decimal.Numeral
import BrowserPilot.Text.Hex
import BrowserPilot.Text.Pieces

/-! IPv4 and IPv6 addresses. -/
namespace BrowserPilot.Url

def isOctet (cs : List CodePoint) : Bool :=
  !cs.isEmpty && cs.length ≤ 3 && cs.all CodePoint.isDigit && (cs == [.char '0'] || cs.head? != some (.char '0')) &&
    Decimal.value cs < 256

/-- An IPv4 address. -/
def isFourPart (cs : List CodePoint) : Bool :=
  let parts := Text.pieces '.' cs
  parts.length == 4 && parts.all isOctet

def isGroup (cs : List CodePoint) : Bool :=
  !cs.isEmpty && cs.length ≤ 4 && cs.all fun c => (Text.hexValue? c).isSome

/-- The number of groups that parts stand for. The last part of an address may be an IPv4 address, which counts as
two. -/
def groupCount? (last : Bool) : List (List CodePoint) → Option Nat
  | [] => some 0
  | [part] => if isGroup part then some 1 else if last && isFourPart part then some 2 else none
  | part :: parts => if isGroup part then (groupCount? last parts).map (· + 1) else none

def colonParts (cs : List CodePoint) : List (List CodePoint) := if cs.isEmpty then [] else Text.pieces ':' cs

def splitAtGap : List CodePoint → Option (List CodePoint × List CodePoint)
  | .char ':' :: .char ':' :: rest => some ([], rest)
  | c :: cs => (splitAtGap cs).map fun p => (c :: p.1, p.2)
  | [] => none

/-- An IPv6 address without zone: eight groups, of which one run of zeros may be left out. -/
def isEightGroup (cs : List CodePoint) : Bool :=
  match splitAtGap cs with
  | none => groupCount? true (colonParts cs) == some 8
  | some (before, after) =>
    match groupCount? false (colonParts before), groupCount? true (colonParts after) with
    | some m, some n => m + n ≤ 7
    | _, _ => false

/-- An IPv6 address, with an optional zone. -/
def isZoned (cs : List CodePoint) : Bool :=
  match Text.pieces '%' cs with
  | [address] => isEightGroup address
  | [address, zone] => isEightGroup address && !zone.isEmpty
  | _ => false

end BrowserPilot.Url
