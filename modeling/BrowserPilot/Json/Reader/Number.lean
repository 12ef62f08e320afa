import BrowserPilot.Binary64.Text
import BrowserPilot.Json.Basic
import BrowserPilot.Json.ReadError

/-! Reading JSON numbers. The longest numeral is taken: a point without a digit after it, or an exponent mark
without digits, is left to whatever comes next. -/
namespace BrowserPilot.Json

def digits (s : List CodePoint) : List CodePoint × List CodePoint :=
  (s.takeWhile CodePoint.isDigit, s.dropWhile CodePoint.isDigit)

/-- The digits of the integer part. A leading zero ends it. -/
def wholePart : List CodePoint → List CodePoint × List CodePoint
  | .char '0' :: r => (['0'], r)
  | s => digits s

/-- The digits after a point, if at least one follows. -/
def fractionPart (s : List CodePoint) : Option (List CodePoint × List CodePoint) :=
  match s with
  | .char '.' :: r => if (digits r).1.isEmpty then none else some (digits r)
  | _ => none

/-- An optional sign; `true` for a minus. -/
def signPart : List CodePoint → Bool × List CodePoint
  | .char '-' :: r => (true, r)
  | .char '+' :: r => (false, r)
  | s => (false, s)

/-- The sign and the digits of an exponent, if at least one digit follows. -/
def exponentPart (s : List CodePoint) : Option (Bool × List CodePoint × List CodePoint) :=
  match s with
  | .char 'e' :: r | .char 'E' :: r =>
    let (negative, r) := signPart r
    if (digits r).1.isEmpty then none else some (negative, digits r)
  | _ => none

def wholeNumber (negative : Bool) (ds : List CodePoint) : Except ReadError Json :=
  if digitLimit < ds.length then .error (.tooManyDigits ds.length)
  else
    let n : Int := Decimal.value ds
    .ok (.int (if negative then -n else n))

/-- Reads a number. Without fraction and exponent it is an integer. -/
def readNumber (s : List CodePoint) : Except ReadError (Json × List CodePoint) :=
  let (negative, r) : Bool × List CodePoint := match s with
    | .char '-' :: r => (true, r)
    | r => (false, r)
  let (whole, r) := wholePart r
  if whole.isEmpty then .error (.malformed .noValue s.length)
  else
    match fractionPart r, exponentPart ((fractionPart r).elim r Prod.snd) with
    | none, none => (wholeNumber negative whole).map fun v => (v, r)
    | fraction, exponent =>
      let x := Binary64.Fraction.toBinary64
        ⟨negative, whole, fraction.elim [] Prod.fst, exponent.elim false Prod.fst, exponent.elim [] (·.2.1)⟩
      .ok (.float x, exponent.elim (fraction.elim r Prod.snd) (·.2.2))

end BrowserPilot.Json
