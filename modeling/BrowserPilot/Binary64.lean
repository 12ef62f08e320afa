/-! Binary floating point numbers of 64 bits, as exact values. -/
namespace BrowserPilot

/-- A finite number is `m * 2 ^ q`. Numbers made by `Binary64.ofRatio` have `m` of at most 53 bits, and of
exactly 53 unless `q` is the least exponent. -/
inductive Binary64
  | nan
  | infinite (negative : Bool)
  | finite (negative : Bool) (m : Nat) (q : Int)
deriving DecidableEq, Repr

namespace Binary64

def leastExponent : Int := -1074

def greatestExponent : Int := 971

/-- The quotient rounded to the nearest integer, ties to even. -/
def roundHalfEven (num den : Nat) : Nat :=
  let q := num / den
  let r := num % den
  if 2 * r < den || (2 * r == den && q % 2 == 0) then q else q + 1

/-- The numerator of `b ^ e`, where `e` may be negative. -/
def powNum (b : Nat) (e : Int) : Nat := Nat.pow b e.toNat

def powDen (b : Nat) (e : Int) : Nat := powNum b (-e)

def significandBound : Nat := 0x20000000000000

def leastSignificand : Nat := 0x10000000000000

/-- The greatest `e` with `2 ^ e ≤ num / den`. -/
def floorLog2 (num den : Nat) : Int :=
  let e : Int := (Nat.log2 num : Int) - Nat.log2 den
  if den * powNum 2 e ≤ num * powDen 2 e then e else e - 1

/-- The integer equal to the number, if there is one. -/
def whole? : Binary64 → Option Int
  | .finite negative m q =>
    let n := m * powNum 2 q
    if n % powDen 2 q = 0 then some (if negative then -(n / powDen 2 q : Nat) else (n / powDen 2 q : Nat)) else none
  | _ => none

/-- The number nearest to a quotient, ties to the even significand. -/
def ofRatio (negative : Bool) (num den : Nat) : Binary64 :=
  if num == 0 then .finite negative 0 leastExponent
  else
    let q := max (floorLog2 num den - 52) leastExponent
    let m := roundHalfEven (num * powDen 2 q) (den * powNum 2 q)
    let (m, q) := if m < significandBound then (m, q) else (leastSignificand, q + 1)
    if greatestExponent < q then .infinite negative else .finite negative m q

/-- The number nearest to `digits * 10 ^ exponent`. Exponents far outside the range are settled by their size,
so that no power of ten is larger than the numeral itself calls for. -/
def ofDecimal (negative : Bool) (digits : Nat) (exponent : Int) : Binary64 :=
  if digits == 0 || Nat.log2 digits + 1 + 3 * exponent < leastExponent - 10 then
    .finite negative 0 leastExponent
  else if 400 < exponent then .infinite negative
  else ofRatio negative (digits * powNum 10 exponent) (powDen 10 exponent)

end Binary64

end BrowserPilot
