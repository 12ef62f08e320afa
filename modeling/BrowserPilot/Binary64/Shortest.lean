import BrowserPilot.Binary64

/-! The shortest decimal that rounds to a given binary number. -/
namespace BrowserPilot.Binary64

/-- A positive decimal, `digits * 10 ^ exponent`. -/
structure Decimal where
  digits : Nat
  exponent : Int
deriving DecidableEq, Repr

def compareScaled (a : Nat) (i : Int) (n : Nat) (j : Int) : Ordering :=
  compare (a * powNum 10 i * powDen 2 j) (n * powNum 2 j * powDen 10 i)

/-- Whether `d` rounds to `m * 2 ^ q`: it lies between the midpoints to the two neighbours, which themselves round
to an even significand. Below a power of two the gap is half as wide. -/
def readsBack (m : Nat) (q : Int) (d : Decimal) : Bool :=
  let low := if m == leastSignificand && leastExponent < q then 4 * m - 1 else 4 * m - 2
  let atLow := compareScaled d.digits d.exponent low (q - 2)
  let atHigh := compareScaled d.digits d.exponent (4 * m + 2) (q - 2)
  let even := m % 2 == 0
  (atLow == .gt || (even && atLow == .eq)) && (atHigh == .lt || (even && atHigh == .eq))

/-- The least exponent of a power of ten above `m * 2 ^ q`, estimated from the binary size and then corrected. -/
def decimalScale (m : Nat) (q : Int) : Int :=
  let estimate := (((Nat.log2 m : Int) + q) * 30103).fdiv 100000
  let above (s : Int) := compareScaled 1 s m q == .gt
  if above estimate then estimate
  else if above (estimate + 1) then estimate + 1
  else estimate + 2

def gridFloor (m : Nat) (q g : Int) : Nat :=
  m * powNum 2 q * powDen 10 g / (powDen 2 q * powNum 10 g)

/-- The multiple of `10 ^ g` next to `m * 2 ^ q` that rounds to it: the nearer of the two, the even one on a tie. -/
def onGrid? (m : Nat) (q g : Int) : Option Decimal :=
  let c := gridFloor m q g
  let below : Decimal := ⟨c, g⟩
  let above : Decimal := ⟨c + 1, g⟩
  match readsBack m q below, readsBack m q above with
  | false, false => none
  | true, false => some below
  | false, true => some above
  | true, true =>
    match compareScaled (2 * c + 1) g (2 * m) q with
    | .gt => some below
    | .lt => some above
    | .eq => some (if c % 2 == 0 then below else above)

def dropZeros : (fuel : Nat) → Decimal → Decimal
  | 0, d => d
  | fuel + 1, d => if d.digits % 10 == 0 then dropZeros fuel ⟨d.digits / 10, d.exponent + 1⟩ else d

/-- The shortest decimal that reads back as `m * 2 ^ q`. Seventeen digits are enough for every significand of at
most 53 bits; the exact decimal closes the search for others. -/
def shortest (m : Nat) (q : Int) : Decimal :=
  let scale := decimalScale m q
  match (List.range 17).findSome? fun n : Nat => onGrid? m q (scale - n - 1) with
  | some d => dropZeros 17 d
  | none => ⟨m * powNum 2 q * powDen 5 q, min q 0⟩

end BrowserPilot.Binary64
