import BrowserPilot.Binary64.Text
import BrowserPilot.Json.ReadError
import BrowserPilot.Json.Basic
import BrowserPilot.Text.Hex

/-! JSON values as ASCII text, on one line or spread over indented lines. -/
namespace BrowserPilot.Json

def unitEscape (n : Nat) : List CodePoint := .char '\\' :: .char 'u' :: Text.hexFixed 4 n

/-- A code point inside a string. Printable ASCII other than the quotation mark and the backslash is written as
itself, a code point above `0xFFFF` as a surrogate pair. -/
def escape (c : CodePoint) : List CodePoint :=
  if c == '"' then ['\\', '"']
  else if c == '\\' then ['\\', '\\']
  else if c == '\n' then ['\\', 'n']
  else if c == '\r' then ['\\', 'r']
  else if c == '\t' then ['\\', 't']
  else if c == '\x08' then ['\\', 'b']
  else if c == '\x0c' then ['\\', 'f']
  else if 0x20 ≤ c.toNat && c.toNat ≤ 0x7E then [c]
  else if c.toNat < 0x10000 then unitEscape c.toNat
  else unitEscape (0xD800 + (c.toNat - 0x10000) / 0x400) ++ unitEscape (0xDC00 + (c.toNat - 0x10000) % 0x400)

def printString (s : Text) : List CodePoint := .char '"' :: s.toList.flatMap escape ++ [.char '"']

def spelling : Binary64.Spelling where
  nan := "NaN"
  infinity := "Infinity"

/-- Scalars. Lists and objects are written by the callers. -/
def printLeaf : Json → List CodePoint
  | .null => ['n', 'u', 'l', 'l']
  | .bool true => ['t', 'r', 'u', 'e']
  | .bool false => ['f', 'a', 'l', 's', 'e']
  | .int n => Decimal.signedNumeral n
  | .float x => x.render spelling
  | .str s => printString s
  | .arr _ | .obj _ => []

mutual

/-- The compact form, with `", "` and `": "` as separators. -/
def print : Json → List CodePoint
  | .arr [] => ['[', ']']
  | .arr (v :: items) => .char '[' :: (print v ++ printItems items)
  | .obj [] => ['{', '}']
  | .obj ((k, v) :: fields) => .char '{' :: (printString k ++ .char ':' :: .char ' ' :: (print v ++ printFields fields))
  | leaf => printLeaf leaf

def printItems : List Json → List CodePoint
  | [] => [']']
  | v :: items => .char ',' :: .char ' ' :: (print v ++ printItems items)

def printFields : List (Text × Json) → List CodePoint
  | [] => ['}']
  | (k, v) :: fields =>
    .char ',' :: .char ' ' :: (printString k ++ .char ':' :: .char ' ' :: (print v ++ printFields fields))

end

def newline (depth : Nat) : List CodePoint := .char '\n' :: List.replicate (2 * depth) ' '

mutual

/-- The indented form, with two blanks for each level. -/
def printIndented (depth : Nat) : Json → List CodePoint
  | .arr [] => ['[', ']']
  | .arr (v :: items) =>
    .char '[' :: (newline (depth + 1) ++ (printIndented (depth + 1) v ++ printIndentedItems depth items))
  | .obj [] => ['{', '}']
  | .obj ((k, v) :: fields) =>
    .char '{' :: (newline (depth + 1) ++ (printString k ++ .char ':' :: .char ' ' ::
      (printIndented (depth + 1) v ++ printIndentedFields depth fields)))
  | leaf => printLeaf leaf

def printIndentedItems (depth : Nat) : List Json → List CodePoint
  | [] => newline depth ++ [.char ']']
  | v :: items => .char ',' :: (newline (depth + 1) ++ (printIndented (depth + 1) v ++ printIndentedItems depth items))

def printIndentedFields (depth : Nat) : List (Text × Json) → List CodePoint
  | [] => newline depth ++ [.char '}']
  | (k, v) :: fields =>
    .char ',' :: (newline (depth + 1) ++ (printString k ++ .char ':' :: .char ' ' ::
      (printIndented (depth + 1) v ++ printIndentedFields depth fields)))

end

/-- The limits at which writing a value fails. -/
inductive PrintError
  | tooManyDigits
  | tooDeep
deriving DecidableEq, Repr

def PrintError.message : PrintError → Text
  | .tooManyDigits =>
    "Exceeds the limit (" ++ toString digitLimit ++
      " digits) for integer string conversion; use sys.set_int_max_str_digits() to increase the limit"
  | .tooDeep => "maximum recursion depth exceeded while encoding a JSON object"

mutual

/-- The first limit that a value exceeds when `depth` more levels of nesting are allowed. -/
def printError? (depth : Nat) : Json → Option PrintError
  | .int n => if digitLimit < (Decimal.numeral n.natAbs).length then some .tooManyDigits else none
  | .arr items => if depth = 0 then some .tooDeep else itemsError? (depth - 1) items
  | .obj fields => if depth = 0 then some .tooDeep else fieldsError? (depth - 1) fields
  | _ => none

def itemsError? (depth : Nat) : List Json → Option PrintError
  | [] => none
  | v :: items => (printError? depth v).or (itemsError? depth items)

def fieldsError? (depth : Nat) : List (Text × Json) → Option PrintError
  | [] => none
  | (_, v) :: fields => (printError? depth v).or (fieldsError? depth fields)

end

/-- The compact text of a value, whether or not a limit is exceeded. -/
def compact (v : Json) : Text := Text.ofList v.print

/-- The indented text of a value. -/
def pretty (v : Json) : Text := Text.ofList (v.printIndented 0)

/-- The compact text of a value, or the limit that it exceeds. -/
def dump (v : Json) : Except PrintError Text :=
  match v.printError? depthLimit with
  | some e => .error e
  | none => .ok v.compact

end BrowserPilot.Json
