import BrowserPilot.Text.Basic

/-! The errors of the JSON reader. -/
namespace BrowserPilot.Json

/-- The token that was expected or not allowed where the text leaves the grammar. -/
inductive SyntaxFault
  | byteOrderMark
  | noValue
  | noKey
  | noColon
  | noComma
  | moreText
  | unclosedString
  | controlCharacter
  | unknownEscape
  | badUnit
deriving DecidableEq, Repr

def SyntaxFault.message : SyntaxFault → Text
  | .byteOrderMark => "Unexpected UTF-8 BOM (decode using utf-8-sig)"
  | .noValue => "Expecting value"
  | .noKey => "Expecting property name enclosed in double quotes"
  | .noColon => "Expecting ':' delimiter"
  | .noComma => "Expecting ',' delimiter"
  | .moreText => "Extra data"
  | .unclosedString => "Unterminated string starting at"
  | .controlCharacter => "Invalid control character at"
  | .unknownEscape => "Invalid \\escape"
  | .badUnit => "Invalid \\uXXXX escape"

inductive Container
  | array
  | object
deriving DecidableEq, Repr

/-- A syntax error, or a limit of the reader. Positions are counted from the end of the text. -/
inductive ReadError
  | malformed (fault : SyntaxFault) (remaining : Nat)
  | tooManyDigits (count : Nat)
  | tooDeep (container : Container)
deriving DecidableEq, Repr

/-- The number of digits that an integer may have. -/
def digitLimit : Nat := 4300

/-- The number of containers that may be nested. -/
def depthLimit : Nat := 990

/-- The line number of a position, from one. -/
def lineAt (cs : List CodePoint) (position : Nat) : Nat := (cs.take position).count (.char '\n') + 1

/-- The column number of a position, from one. -/
def columnAt (cs : List CodePoint) (position : Nat) : Nat :=
  ((cs.take position).reverse.takeWhile fun c : CodePoint => c != '\n').length + 1

def ReadError.message (text : List CodePoint) : ReadError → Text
  | .malformed fault remaining =>
    let position := text.length - remaining
    fault.message ++ ": line " ++ toString (lineAt text position) ++ " column " ++
      toString (columnAt text position) ++ " (char " ++ toString position ++ ")"
  | .tooManyDigits count =>
    "Exceeds the limit (" ++ toString digitLimit ++ " digits) for integer string conversion: value has " ++
      toString count ++ " digits; use sys.set_int_max_str_digits() to increase the limit"
  | .tooDeep .array => "maximum recursion depth exceeded while decoding a JSON array from a unicode string"
  | .tooDeep .object => "maximum recursion depth exceeded while decoding a JSON object from a unicode string"

end BrowserPilot.Json
