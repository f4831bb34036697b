import Rubato.Decimal.Binary

namespace Rubato.Decimal

/-! The fewest decimal digits that read back as a given double. Every double owns
an interval of reals that round to it, ends included when its significand is
even. For one digit, two digits and so on the two neighbours of the value on that
decimal grid are tried; the first grid with a hit wins, and of two hits the nearer
one, the upper one on a tie. -/

def digitCount (value : Nat) : Nat :=
  if value = 0 then 0 else (Nat.toDigits 10 value).length

def decimalPower (numerator denominator : Nat) : Int :=
  if denominator ≤ numerator then (digitCount (numerator / denominator) : Int) - 1
  else -(digitCount ((denominator + numerator - 1) / numerator - 1) : Int)

/-- A number of quarter units `value`, and the ends of the reals that round to it,
all three over one denominator. -/
structure Rounding where
  low : Nat
  value : Nat
  high : Nat
  denominator : Nat
  closed : Bool

def Rounding.ofBinary (significand : Nat) (exponent : Int) : Rounding :=
  let narrow := significand = leadingBit ∧ -1074 < exponent
  let up := (exponent - 2).toNat
  { low := (4 * significand - if narrow then 1 else 2) <<< up
    value := (4 * significand) <<< up
    high := (4 * significand + 2) <<< up
    denominator := 1 <<< (2 - exponent).toNat
    closed := significand % 2 = 0 }

def Rounding.compareTo (rounding : Rounding) (digits : Nat) (exponent : Int)
    (numerator : Nat) : Ordering :=
  compare (digits * rounding.denominator * tenTo exponent.toNat)
    (numerator * tenTo (-exponent).toNat)

def Rounding.holds (rounding : Rounding) (digits : Nat) (exponent : Int) : Bool :=
  let low := rounding.compareTo digits exponent rounding.low
  let high := rounding.compareTo digits exponent rounding.high
  if rounding.closed then low.isGE && high.isLE else low.isGT && high.isLT

def Rounding.below (rounding : Rounding) (exponent : Int) : Nat :=
  (rounding.value * tenTo (-exponent).toNat) /
    (rounding.denominator * tenTo exponent.toNat)

/-- The better grid neighbour that rounds to the value, if one does. -/
def Rounding.onGrid? (rounding : Rounding) (exponent : Int) : Option Nat :=
  let lower := rounding.below exponent
  let upper := lower + 1
  match rounding.holds lower exponent, rounding.holds upper exponent with
  | false, false => none
  | true, false => some lower
  | false, true => some upper
  | true, true =>
    -- both hit: compare the value with the middle of the grid cell
    if (rounding.compareTo (lower + upper) exponent (2 * rounding.value)).isGT
    then some lower else some upper

def Rounding.search (rounding : Rounding) (power : Int) : Nat → Nat → Nat × Int
  | 0, count => (rounding.below (power + 1 - count), power + 1 - count)
  | tries + 1, count =>
    let exponent := power + 1 - count
    match rounding.onGrid? exponent with
    | some digits => (digits, exponent)
    | none => rounding.search power tries (count + 1)

def dropZeros : Nat → Nat × Int → Nat × Int
  | 0, number => number
  | tries + 1, (digits, exponent) =>
    if digits % 10 = 0 ∧ 0 < digits then dropZeros tries (digits / 10, exponent + 1)
    else (digits, exponent)

/-- The shortest digits of the positive value `significand * 2 ^ exponent` and the
power of ten they are multiplied by. -/
def shortest (significand : Nat) (exponent : Int) : Nat × Int :=
  let rounding := Rounding.ofBinary significand exponent
  let power := decimalPower rounding.value rounding.denominator
  dropZeros 18 (rounding.search power 17 1)

end Rubato.Decimal
