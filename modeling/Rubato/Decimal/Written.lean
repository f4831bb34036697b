import Rubato.Decimal.Shortest

namespace Rubato.Decimal

/-! Written numbers. A number in a message never has an exponent: it has its
shortest digits, filled up with zeros to the left or right of the point. -/

def zeros (count : Nat) : List Char :=
  List.replicate count '0'

/-- The digits of `digits * 10 ^ exponent` in positional form, with a point only
before a fraction. -/
def positional (digits : Nat) (exponent : Int) : List Char :=
  let written := Nat.toDigits 10 digits
  if 0 ≤ exponent then written ++ zeros exponent.toNat
  else
    let places := (-exponent).toNat
    let padded := zeros (places + 1 - written.length) ++ written
    let whole := padded.length - places
    padded.take whole ++ '.' :: padded.drop whole

def signed (negative : Bool) (digits : List Char) : List Char :=
  if negative then '-' :: digits else digits

def infinityText (negative : Bool) : List Char :=
  signed negative "inf".toList

def undefinedText : List Char := "NaN".toList

def plainDigits (significand : Nat) (exponent : Int) : List Char :=
  if significand = 0 then ['0']
  else
    let (digits, power) := shortest significand exponent
    positional digits power

/-- Shortest digits in positional form: `100`, `0.0000001`, `-0`, `inf`. -/
def Binary.plain : Binary → List Char
  | .finite negative significand exponent =>
    signed negative (plainDigits significand exponent)
  | .infinite negative => infinityText negative
  | .undefined => undefinedText

def Binary.isWhole : Binary → Bool
  | .finite _ significand exponent =>
    decide (0 ≤ exponent) || significand % (1 <<< (-exponent).toNat) == 0
  | _ => false

/-- The exact value rounded at a number of decimal places, a half to the even
neighbour. -/
def Binary.fixed (places : Nat) : Binary → List Char
  | .finite negative significand exponent =>
    let scaled := significand * tenTo places
    let digits :=
      if 0 ≤ exponent then scaled <<< exponent.toNat
      else roundDiv scaled (1 <<< (-exponent).toNat)
    signed negative (positional digits (-(places : Int)))
  | .infinite negative => infinityText negative
  | .undefined => undefinedText

def plain (value : Float) : String :=
  String.ofList (Binary.ofFloat value).plain

def fixed (places : Nat) (value : Float) : String :=
  String.ofList ((Binary.ofFloat value).fixed places)

/-- A whole number has all its digits, any other the shortest ones. -/
def tempoText (value : Float) : List Char :=
  let binary := Binary.ofFloat value
  if binary.isWhole then binary.fixed 0 else binary.plain

end Rubato.Decimal
