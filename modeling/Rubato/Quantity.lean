import Rubato.Decimal.Binary

namespace Rubato

/-! The numbers that musical time is measured in: positions and lengths in
divisions, tempos in beats per minute, times in seconds. Every rule of the library
is written once over `Quantity`, so that the doubles it runs on and the rational
numbers it is reasoned about on share one set of definitions, operation by
operation.

A quantity is compared with itself by `==`, which only an undefined result of
arithmetic fails. `order` is a total order that refines `<` and also ranks
negative zero and undefined results. -/

class Quantity (α : Type) extends
    Zero α, One α, NatCast α, Add α, Sub α, Mul α, Div α, Neg α, LT α, LE α, BEq α where
  ltDecidable : (a b : α) → Decidable (a < b)
  leDecidable : (a b : α) → Decidable (a ≤ b)
  order : α → α → Ordering
  isFinite : α → Bool
  floor : α → α
  /-- The whole units in a quantity, none when it is negative. -/
  units : α → Nat
  /-- The nearest whole number, a half away from zero, within 64 bits. -/
  nearest : α → Int
  ofDecimal : (negative : Bool) → (digits : Nat) → (exponent : Int) → α

namespace Quantity

variable {α : Type} [Quantity α]

instance (a b : α) : Decidable (a < b) := ltDecidable a b

instance (a b : α) : Decidable (a ≤ b) := leDecidable a b

def isDefined (a : α) : Bool := a == a

/-- The smaller of two quantities, the defined one if only one is. -/
def lesser (a b : α) : α :=
  if b < a then b else if isDefined a then a else b

/-- The larger of two quantities, the defined one if only one is. -/
def greater (a b : α) : α :=
  if b < a then a else if isDefined b then b else a

def within (low high a : α) : α :=
  if a < low then low else if high < a then high else a

def distance (a b : α) : α :=
  if a < b then b - a else a - b

def total (quantities : List α) : α :=
  quantities.foldl (· + ·) 0

end Quantity

def leastWord : Int := -0x8000000000000000

def greatestWord : Int := 0x7FFFFFFFFFFFFFFF

def clampInt (least greatest value : Int) : Int :=
  max least (min greatest value)

theorem clampInt_mem {least greatest : Int} (horder : least ≤ greatest) (value : Int) :
    least ≤ clampInt least greatest value ∧ clampInt least greatest value ≤ greatest := by
  unfold clampInt
  omega

/-! Doubles are ranked by sign and magnitude, undefined results above infinity. -/

def floatRank (value : Float) : Int :=
  let bits := value.toBits.toNat
  if Decimal.signBit ≤ bits then -((bits - Decimal.signBit : Nat) : Int) - 1 else bits

instance : Quantity Float where
  zero := 0.0
  one := 1.0
  natCast := Float.ofNat
  ltDecidable := inferInstance
  leDecidable := inferInstance
  order a b := compare (floatRank a) (floatRank b)
  isFinite := Float.isFinite
  floor := Float.floor
  units a := a.floor.toUInt64.toNat
  nearest a := a.round.toInt64.toInt
  ofDecimal := Decimal.toFloat

def ratNearest (value : Rat) : Int :=
  if value < 0 then -(-value + 1 / 2).floor else (value + 1 / 2).floor

instance : Quantity Rat where
  zero := 0
  one := 1
  natCast := Nat.cast
  ltDecidable := inferInstance
  leDecidable := inferInstance
  order a b := if a < b then .lt else if a = b then .eq else .gt
  isFinite _ := true
  floor a := (a.floor : Rat)
  units a := a.floor.toNat
  nearest a := clampInt leastWord greatestWord (ratNearest a)
  ofDecimal negative digits exponent :=
    let magnitude : Rat :=
      if 0 ≤ exponent then (digits : Rat) * (Decimal.tenTo exponent.toNat : Rat)
      else (digits : Rat) / (Decimal.tenTo (-exponent).toNat : Rat)
    if negative then -magnitude else magnitude

end Rubato
