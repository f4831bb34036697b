namespace Rubato.Decimal

/-! Double-precision numbers as exact values: a finite one is a sign and a
magnitude `significand * 2 ^ exponent`. In the other direction a quotient of
natural numbers is rounded to the nearest double, a tie to the even significand,
by working on the sixty-four bits in natural-number arithmetic. -/

inductive Binary
  | finite (negative : Bool) (significand : Nat) (exponent : Int)
  | infinite (negative : Bool)
  | undefined
  deriving DecidableEq

def signBit : Nat := 0x8000000000000000

def infinityBits : Nat := 0x7FF0000000000000

def leadingBit : Nat := 0x10000000000000

def tenTo (exponent : Nat) : Nat := Nat.pow 10 exponent

def Binary.ofBits (bits : Nat) : Binary :=
  let negative := decide (signBit ≤ bits)
  let magnitude := bits % signBit
  let fraction : Nat := magnitude % leadingBit
  let power : Nat := magnitude / leadingBit
  if power = 0x7FF then
    if fraction = 0 then .infinite negative else .undefined
  else if power = 0 then .finite negative fraction (-1074)
  else .finite negative (leadingBit + fraction) (power - 1075)

def Binary.ofFloat (value : Float) : Binary :=
  .ofBits value.toBits.toNat

def roundDiv (numerator denominator : Nat) : Nat :=
  let quotient := numerator / denominator
  let twice := 2 * (numerator % denominator)
  if twice < denominator then quotient
  else if denominator < twice then quotient + 1
  else if quotient % 2 = 0 then quotient
  else quotient + 1

theorem roundDiv_exact (quotient denominator : Nat) (hpos : 0 < denominator) :
    roundDiv (quotient * denominator) denominator = quotient := by
  simp [roundDiv, Nat.mul_div_cancel _ hpos, hpos]

theorem le_roundDiv (numerator denominator : Nat) :
    numerator / denominator ≤ roundDiv numerator denominator := by
  unfold roundDiv
  dsimp only
  split
  · exact Nat.le_refl _
  split
  · exact Nat.le_succ _
  split
  · exact Nat.le_refl _
  · exact Nat.le_succ _

theorem roundDiv_le (numerator denominator : Nat) :
    roundDiv numerator denominator ≤ numerator / denominator + 1 := by
  unfold roundDiv
  dsimp only
  split
  · exact Nat.le_succ _
  split
  · exact Nat.le_refl _
  split
  · exact Nat.le_succ _
  · exact Nat.le_refl _

def scaleDown (numerator denominator : Nat) (exponent : Int) : Nat × Nat :=
  if 0 ≤ exponent then (numerator, denominator <<< exponent.toNat)
  else (numerator <<< (-exponent).toNat, denominator)

/-- The bits of the double nearest to a quotient of positive numbers. -/
def nearestBits (numerator denominator : Nat) : Nat :=
  let guess : Int := (numerator.log2 : Int) - denominator.log2
  let atGuess := scaleDown numerator denominator guess
  let power := if atGuess.2 ≤ atGuess.1 then guess else guess - 1
  let exponent := max (power - 52) (-1074)
  let scaled := scaleDown numerator denominator exponent
  let bits := (exponent + 1074).toNat * leadingBit + roundDiv scaled.1 scaled.2
  if infinityBits ≤ bits then infinityBits else bits

/-- The bits of the double nearest to `digits * 10 ^ exponent`. Values beyond the
range of doubles are settled before any power of ten is taken. -/
def decimalBits (digits : Nat) (exponent : Int) : Nat :=
  if digits = 0 then 0
  else if 400 < exponent then infinityBits
  else if exponent + digits.log2 < -400 then 0
  else if 0 ≤ exponent then nearestBits (digits * tenTo exponent.toNat) 1
  else nearestBits digits (tenTo (-exponent).toNat)

def toFloat (negative : Bool) (digits : Nat) (exponent : Int) : Float :=
  let bits := decimalBits digits exponent
  Float.ofBits (if negative then signBit + bits else bits).toUInt64

end Rubato.Decimal
