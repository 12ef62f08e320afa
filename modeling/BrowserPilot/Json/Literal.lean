import BrowserPilot.Binary64.Text
import BrowserPilot.Json.Basic
import BrowserPilot.Text.Quoted

/-! JSON values as literals: words for the constants, and quoted strings inside of lists and objects. -/
namespace BrowserPilot.Json

def literalSpelling : Binary64.Spelling where
  nan := "nan"
  infinity := "inf"

mutual

/-- The representation of a value as a literal, with every string quoted. -/
def literal : Json → List CodePoint
  | .null => ['N', 'o', 'n', 'e']
  | .bool true => ['T', 'r', 'u', 'e']
  | .bool false => ['F', 'a', 'l', 's', 'e']
  | .int n => Decimal.signedNumeral n
  | .float x => x.render literalSpelling
  | .str s => Text.Quoted.encode s.toList
  | .arr [] => ['[', ']']
  | .arr (v :: items) => .char '[' :: (literal v ++ literalItems items)
  | .obj [] => ['{', '}']
  | .obj ((k, v) :: fields) =>
    .char '{' :: (Text.Quoted.encode k.toList ++ .char ':' :: .char ' ' :: (literal v ++ literalFields fields))

def literalItems : List Json → List CodePoint
  | [] => [']']
  | v :: items => .char ',' :: .char ' ' :: (literal v ++ literalItems items)

def literalFields : List (Text × Json) → List CodePoint
  | [] => ['}']
  | (k, v) :: fields =>
    .char ',' :: .char ' ' :: (Text.Quoted.encode k.toList ++
      .char ':' :: .char ' ' :: (literal v ++ literalFields fields))

end

/-- The text of a value: a string is its own text, any other value is written as a literal. -/
def display : Json → Text
  | .str s => s
  | v => Text.ofList v.literal

end BrowserPilot.Json
