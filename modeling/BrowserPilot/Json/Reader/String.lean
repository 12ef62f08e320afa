import BrowserPilot.Json.ReadError
import BrowserPilot.Text.Hex

/-! Reading the characters of a JSON string. -/
namespace BrowserPilot.Json

def unescape? : CodePoint → Option CodePoint
  | .char '"' => some '"'
  | .char '\\' => some '\\'
  | .char '/' => some '/'
  | .char 'b' => some '\x08'
  | .char 'f' => some '\x0c'
  | .char 'n' => some '\n'
  | .char 'r' => some '\r'
  | .char 't' => some '\t'
  | _ => none

def unit? (a b c d : CodePoint) : Option Nat := do
  let a ← Text.hexValue? a
  let b ← Text.hexValue? b
  let c ← Text.hexValue? c
  let d ← Text.hexValue? d
  return ((a * 16 + b) * 16 + c) * 16 + d

def isHighSurrogate (n : Nat) : Bool := 0xD800 ≤ n && n ≤ 0xDBFF

def isLowSurrogate (n : Nat) : Bool := 0xDC00 ≤ n && n ≤ 0xDFFF

def joinSurrogates (high low : Nat) : CodePoint :=
  CodePoint.ofNat (0x10000 + (high - 0xD800) * 0x400 + (low - 0xDC00))

/-- Reads the characters up to the closing quotation mark; `opening` is the position of the opening one. A numeric
escape needs a character after its digits, since a string cannot end without its mark. -/
def readString (opening : Nat) : List CodePoint → Except ReadError (List CodePoint × List CodePoint)
  | [] => .error (.malformed .unclosedString opening)
  | .char '"' :: r => .ok ([], r)
  | [.char '\\'] => .error (.malformed .unclosedString opening)
  | .char '\\' :: .char 'u' :: a :: b :: c :: d :: e :: r =>
    match unit? a b c d with
    | none => .error (.malformed .badUnit (r.length + 6))
    | some n =>
      if isHighSurrogate n then
        match e, r with
        | .char '\\', .char 'u' :: a :: b :: c :: d :: e :: r =>
          match unit? a b c d with
          | none => .error (.malformed .badUnit (r.length + 6))
          | some m =>
            if isLowSurrogate m then
              (readString opening (e :: r)).map fun p => (joinSurrogates n m :: p.1, p.2)
            else
              (readString opening (.char '\\' :: .char 'u' :: a :: b :: c :: d :: e :: r)).map
                fun p => (CodePoint.ofNat n :: p.1, p.2)
        | e, r => (readString opening (e :: r)).map fun p => (CodePoint.ofNat n :: p.1, p.2)
      else (readString opening (e :: r)).map fun p => (CodePoint.ofNat n :: p.1, p.2)
  | .char '\\' :: .char 'u' :: r => .error (.malformed .badUnit (r.length + 1))
  | .char '\\' :: c :: r =>
    match unescape? c with
    | none => .error (.malformed .unknownEscape (r.length + 2))
    | some ch => (readString opening r).map fun p => (ch :: p.1, p.2)
  | c :: r =>
    if c.toNat < 0x20 then .error (.malformed .controlCharacter (r.length + 1))
    else (readString opening r).map fun p => (c :: p.1, p.2)

end BrowserPilot.Json
