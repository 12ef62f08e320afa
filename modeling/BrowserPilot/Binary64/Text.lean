import BrowserPilot.Binary64.Shortest
import BrowserPilot.Decimal.Numeral

/-! Conversion between binary numbers and decimal text. -/
namespace BrowserPilot.Binary64

structure Spelling where
  nan : Text
  infinity : Text

def exponentText (e : Int) : List CodePoint :=
  let digits := Decimal.numeral e.natAbs
  (if e < 0 then .char '-' else '+') :: (if digits.length < 2 then .char '0' :: digits else digits)

/-- Positional notation for leading digits from `10 ^ -4` to `10 ^ 15`, scientific notation otherwise. A whole
number gets the fraction `.0`. -/
def layout (d : Decimal) : List CodePoint :=
  let digits := Decimal.numeral d.digits
  let lead : Int := digits.length + d.exponent - 1
  if lead < -4 || 16 ≤ lead then
    (match digits with
      | c :: (r@(_ :: _)) => c :: .char '.' :: r
      | short => short) ++ .char 'e' :: exponentText lead
  else if 0 ≤ d.exponent then digits ++ List.replicate d.exponent.toNat (.char '0') ++ [.char '.', .char '0']
  else if 0 ≤ lead then digits.take (lead + 1).toNat ++ .char '.' :: digits.drop (lead + 1).toNat
  else .char '0' :: .char '.' :: List.replicate (-lead - 1).toNat (.char '0') ++ digits

/-- The shortest decimal that rounds to the number, with its sign. -/
def render (spelling : Spelling) : Binary64 → List CodePoint
  | .nan => spelling.nan.toList
  | .infinite negative => (if negative then [.char '-'] else []) ++ spelling.infinity.toList
  | .finite negative m q =>
    (if negative then [.char '-'] else []) ++
      (if m == 0 then [.char '0', .char '.', .char '0'] else layout (shortest m q))

/-- A decimal fraction split into sign, digits and exponent, before conversion. -/
structure Fraction where
  negative : Bool
  whole : List CodePoint
  fraction : List CodePoint
  exponentNegative : Bool
  exponent : List CodePoint

def Fraction.toBinary64 (f : Fraction) : Binary64 :=
  let e : Int := Decimal.value f.exponent
  ofDecimal f.negative (Decimal.value (f.whole ++ f.fraction))
    ((if f.exponentNegative then -e else e) - f.fraction.length)

end BrowserPilot.Binary64
