import BrowserPilot.Binary64.Text
import BrowserPilot.Json.Reader
import BrowserPilot.Text.Blank
import BrowserPilot.Text.Truth

/-! Conversion of environment values to settings. -/
namespace BrowserPilot.Settings

/-- The type that a value does not have. -/
inductive ValueFault
  | wholeNumber
  | numberSize
  | truth
  | fraction
  | list
  | text
deriving DecidableEq, Repr

def ValueFault.code : ValueFault → Text
  | .wholeNumber => "int_parsing"
  | .numberSize => "int_parsing_size"
  | .truth => "bool_parsing"
  | .fraction => "float_parsing"
  | .list => "list_type"
  | .text => "string_type"

/-- Whitespace that may surround a number, which excludes the information separators. -/
def isMargin (c : CodePoint) : Bool := Text.isBlank c && !(0x1C ≤ c.toNat && c.toNat ≤ 0x1F)

def trimMargin (cs : List CodePoint) : List CodePoint := ((cs.dropWhile isMargin).reverse.dropWhile isMargin).reverse

def hasDoubleUnderscore : List CodePoint → Bool
  | .char '_' :: .char '_' :: _ => true
  | _ :: cs => hasDoubleUnderscore cs
  | [] => false

/-- Removes underscores, which may stand only between two other characters. -/
def dropUnderscores? (cs : List CodePoint) : Option (List CodePoint) :=
  if cs.head? == some (.char '_') || cs.getLast? == some (.char '_') || hasDoubleUnderscore cs then none
  else some (cs.filter (· != CodePoint.char '_'))

def readTruth (s : Text) : Except ValueFault Bool :=
  match Text.truth? s with
  | some b => .ok b
  | none => .error .truth

def splitMinus : List CodePoint → Bool × List CodePoint
  | .char '-' :: cs => (true, cs)
  | cs => (false, cs)

/-- Removes leading zeros, and the underscores among them. The last zero stays if nothing or a point follows. -/
def dropZeros? (cs : List CodePoint) : Option (List CodePoint) :=
  if !cs.head?.any CodePoint.isDigit then none
  else if cs.head? != some (.char '0') then some cs
  else
    let isZero := fun c : CodePoint => c == '0' || c == '_'
    match cs.dropWhile isZero with
    | [] => some cs.getLast?.toList
    | .char '.' :: rest => some ((cs.takeWhile isZero).getLast?.toList ++ .char '.' :: rest)
    | rest => some rest

/-- Removes leading zeros, also after a minus. -/
def dropLeadingZeros? (cs : List CodePoint) : Option (List CodePoint) :=
  match cs with
  | .char '-' :: rest => (dropZeros? rest).map (.char '-' :: ·)
  | cs => dropZeros? cs

/-- Removes a point that is followed by zeros only. -/
def dropPointZeros (cs : List CodePoint) : List CodePoint :=
  match cs.dropWhile (· != CodePoint.char '.') with
  | _ :: .char '0' :: rest => if rest.all (· == CodePoint.char '0') then cs.takeWhile (· != CodePoint.char '.') else cs
  | _ => cs

/-- Removes a plus, which must not stand before a minus. -/
def dropPlus? : List CodePoint → Option (List CodePoint)
  | .char '+' :: .char '-' :: _ => none
  | .char '+' :: cs => some cs
  | cs => some cs

/-- The plain form of a numeral, without margins, plus, redundant zeros and underscores. -/
def plainNumeral? (cs : List CodePoint) : Option (List CodePoint) := do
  let cs ← dropPlus? (trimMargin cs)
  let cs := dropPointZeros (← dropLeadingZeros? cs)
  return (dropUnderscores? cs).getD cs

def plainWhole? (cs : List CodePoint) : Option Int :=
  let (negative, ds) := splitMinus cs
  if ds.isEmpty || !ds.all CodePoint.isDigit || (ds.length != 1 && ds.head? == some (.char '0')) ||
      Json.digitLimit < ds.length then
    none
  else
    let n : Int := Decimal.value ds
    some (if negative then -n else n)

/-- Whether a numeral in plain form at the start of a text has too many digits. -/
def isOversized (cs : List CodePoint) : Bool :=
  let (_, rest) := splitMinus cs
  rest.head? != some (.char '0') && Json.digitLimit < (rest.takeWhile CodePoint.isDigit).length

/-- Reads an integer. It may have a plus, leading zeros, a fraction of zeros, and underscores between digits. Too
many digits are reported as such only in a numeral at the start of the text. -/
def readWhole (s : Text) : Except ValueFault Int :=
  if isOversized s.toList then .error .numberSize
  else
    match (plainNumeral? s.toList).bind plainWhole? with
    | some n => .ok n
    | none => .error .wholeNumber

/-- Reads digits with an optional point and an optional exponent, or a word for infinity or NaN. -/
def readUnsigned? (negative : Bool) (cs : List CodePoint) : Option Binary64 :=
  let word := Text.ofList (cs.map CodePoint.toLower)
  if word == "inf" || word == "infinity" then some (.infinite negative)
  else if word == "nan" then some .nan
  else
    let (whole, rest) := Json.digits cs
    let (fraction, rest) := match rest with
      | .char '.' :: rest => Json.digits rest
      | rest => ([], rest)
    if whole.isEmpty && fraction.isEmpty then none
    else
      match rest, Json.exponentPart rest with
      | [], _ => some (Binary64.Fraction.toBinary64 ⟨negative, whole, fraction, false, []⟩)
      | _, some (exponentNegative, exponent, []) =>
        some (Binary64.Fraction.toBinary64 ⟨negative, whole, fraction, exponentNegative, exponent⟩)
      | _, _ => none

def readSigned? (cs : List CodePoint) : Option Binary64 :=
  let (negative, cs) := Json.signPart cs
  readUnsigned? negative cs

/-- Reads a number surrounded by whitespace, or one with underscores. -/
def readFraction (s : Text) : Except ValueFault Binary64 :=
  match (readSigned? (trimMargin s.toList)).or ((dropUnderscores? s.toList).bind readSigned?) with
  | some x => .ok x
  | none => .error .fraction

end BrowserPilot.Settings
