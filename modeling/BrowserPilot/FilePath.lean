import BrowserPilot.Text.Pieces

/-! File paths: a root and a list of components. -/
namespace BrowserPilot

/-- The root of a path. Exactly two leading slashes are a root of their own; three or more count as one. -/
inductive PathRoot
  | none
  | single
  | double
deriving DecidableEq, Repr

def PathRoot.ofText : List CodePoint → PathRoot
  | .char '/' :: .char '/' :: .char '/' :: _ => .single
  | .char '/' :: .char '/' :: _ => .double
  | .char '/' :: _ => .single
  | _ => .none

def PathRoot.text : PathRoot → Text
  | .none => ""
  | .single => "/"
  | .double => "//"

structure FilePath where
  root : PathRoot
  parts : List Text
deriving DecidableEq, Repr

namespace FilePath

/-- Empty segments and single dots are dropped. -/
def isPart (cs : List CodePoint) : Bool := !cs.isEmpty && cs != [.char '.']

def parse (s : Text) : FilePath where
  root := PathRoot.ofText s.toList
  parts := ((Text.pieces '/' s.toList).filter isPart).map Text.ofList

/-- The text of a path; the empty path is written as a dot. -/
def render (p : FilePath) : Text :=
  if p.root = .none ∧ p.parts = [] then "." else PathRoot.text p.root ++ Text.intercalate "/" p.parts

def child (p : FilePath) (name : Text) : FilePath := { p with parts := p.parts ++ [name] }

end FilePath

end BrowserPilot
