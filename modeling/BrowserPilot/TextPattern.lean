import BrowserPilot.Text.Basic

/-! Patterns for text search. A pattern is a sequence of characters: a plain or escaped character matches itself, a
dot any character but a line break. -/
namespace BrowserPilot.TextPattern

/-- The characters that `escape` puts a backslash before. -/
def isProtected (c : CodePoint) : Bool :=
  c ∈ Text.toList "()[]\x7b\x7d?*+-|^$\\.&~# \t\n\r\x0b\x0c"

/-- The pattern that matches exactly the given text. -/
def escape (cs : List CodePoint) : List CodePoint := cs.flatMap fun c => if isProtected c then ['\\', c] else [c]

def ofText (text : Text) : Text := Text.ofList (escape text.toList)

inductive Atom
  | char (c : CodePoint)
  | anyChar
deriving DecidableEq, Repr

/-- The characters that are operators of a pattern unless escaped. -/
def isOperator (c : CodePoint) : Bool :=
  c ∈ Text.toList "()[]\x7b\x7d?*+|^$"

/-- Reads a pattern without operators. Escaped letters and digits are character classes and are not read. -/
def read : List CodePoint → Option (List Atom)
  | [] => some []
  | .char '\\' :: [] => none
  | .char '\\' :: c :: cs => if c.isAlphanum then none else (read cs).map (.char c :: ·)
  | c :: cs =>
    if c == '.' then (read cs).map (.anyChar :: ·)
    else if isOperator c then none
    else (read cs).map (.char c :: ·)

def Atom.accepts : Atom → CodePoint → Bool
  | .char a, c => a == c
  | .anyChar, c => c != '\n'

/-- Whether the atoms match a prefix of the text. -/
def accepts : List Atom → List CodePoint → Bool
  | [], _ => true
  | _ :: _, [] => false
  | a :: atoms, c :: cs => a.accepts c && accepts atoms cs

/-- Whether the atoms match anywhere in the text. -/
def occurs (atoms : List Atom) : List CodePoint → Bool
  | [] => accepts atoms []
  | c :: cs => accepts atoms (c :: cs) || occurs atoms cs

def finds (pattern text : Text) : Bool :=
  match read pattern.toList with
  | some atoms => occurs atoms text.toList
  | none => false

end BrowserPilot.TextPattern
