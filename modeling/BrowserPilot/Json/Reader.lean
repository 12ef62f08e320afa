import BrowserPilot.Json.Reader.Number
import BrowserPilot.Json.Reader.String

/-! Reading JSON text. Beside the standard grammar the words NaN, Infinity and -Infinity are numbers. -/
namespace BrowserPilot.Json

def isSpace (c : CodePoint) : Bool := c == ' ' || c == '\t' || c == '\n' || c == '\r'

def skipSpace (s : List CodePoint) : List CodePoint := s.dropWhile isSpace

/-- A reader consumes a prefix of the text and returns the rest. -/
abbrev Reader (α : Type) := List CodePoint → Except ReadError (α × List CodePoint)

/-- Reads a scalar. -/
def readLeaf : Reader Json
  | .char '"' :: r => (readString (r.length + 1) r).map fun p => (.str (Text.ofList p.1), p.2)
  | .char 'n' :: .char 'u' :: .char 'l' :: .char 'l' :: r => .ok (.null, r)
  | .char 't' :: .char 'r' :: .char 'u' :: .char 'e' :: r => .ok (.bool true, r)
  | .char 'f' :: .char 'a' :: .char 'l' :: .char 's' :: .char 'e' :: r => .ok (.bool false, r)
  | .char 'N' :: .char 'a' :: .char 'N' :: r => .ok (.float .nan, r)
  | .char 'I' :: .char 'n' :: .char 'f' :: .char 'i' :: .char 'n' :: .char 'i' :: .char 't' :: .char 'y' :: r =>
    .ok (.float (.infinite false), r)
  | .char '-' :: .char 'I' :: .char 'n' :: .char 'f' :: .char 'i' :: .char 'n' ::
      .char 'i' :: .char 't' :: .char 'y' :: r => .ok (.float (.infinite true), r)
  | s => readNumber s

def readKey : Reader Text
  | .char '"' :: r => (readString (r.length + 1) r).map fun p => (Text.ofList p.1, p.2)
  | s => .error (.malformed .noKey s.length)

/-- Reads items up to the closing bracket. Each round consumes a character, so the length of the text is enough
rounds. -/
def readItems (value : Reader Json) : (rounds : Nat) → Reader (List Json)
  | 0, s => .error (.malformed .noValue s.length)
  | rounds + 1, s => do
    let (v, r) ← value s
    match skipSpace r with
    | .char ']' :: r => return ([v], r)
    | .char ',' :: r =>
      let (items, r) ← readItems value rounds (skipSpace r)
      return (v :: items, r)
    | r => throw (.malformed .noComma r.length)

/-- Reads pairs up to the closing brace. -/
def readFields (value : Reader Json) : (rounds : Nat) → Reader (List (Text × Json))
  | 0, s => .error (.malformed .noKey s.length)
  | rounds + 1, s => do
    let (key, r) ← readKey s
    match skipSpace r with
    | .char ':' :: r =>
      let (v, r) ← value (skipSpace r)
      match skipSpace r with
      | .char '}' :: r => return ([(key, v)], r)
      | .char ',' :: r =>
        let (fields, r) ← readFields value rounds (skipSpace r)
        return ((key, v) :: fields, r)
      | r => throw (.malformed .noComma r.length)
    | r => throw (.malformed .noColon r.length)

/-- Reads a value with at most `depth` nested containers. -/
def readValue : (depth : Nat) → Reader Json
  | 0, .char '[' :: _ => .error (.tooDeep .array)
  | 0, .char '{' :: _ => .error (.tooDeep .object)
  | depth + 1, .char '[' :: r =>
    match skipSpace r with
    | .char ']' :: r => .ok (.arr [], r)
    | r => (readItems (readValue depth) r.length r).map fun p => (.arr p.1, p.2)
  | depth + 1, .char '{' :: r =>
    match skipSpace r with
    | .char '}' :: r => .ok (.obj [], r)
    | r => (readFields (readValue depth) r.length r).map fun p => (ofPairs p.1, p.2)
  | _, s => readLeaf s

/-- Reads a text that is one value surrounded by whitespace only. -/
def readDocument (s : List CodePoint) : Except ReadError Json := do
  let (v, r) ← readValue depthLimit (skipSpace s)
  match skipSpace r with
  | [] => return v
  | r => throw (.malformed .moreText r.length)

/-- Reads a text, which must not begin with a byte order mark. -/
def readText (s : List CodePoint) : Except ReadError Json :=
  match s with
  | .char '\ufeff' :: _ => .error (.malformed .byteOrderMark s.length)
  | _ => readDocument s

def read (s : Text) : Except ReadError Json := readText s.toList

end BrowserPilot.Json
