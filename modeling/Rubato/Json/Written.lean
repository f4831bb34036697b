import Rubato.Decimal.Written
import Rubato.Json

namespace Rubato.Json

/-! Written JSON, without white space. A number is written with the digits and the
exponent it has, so that reading it gives the same value. -/

def shortEscapes : List (Char × Char) := [
  ('"', '"'), ('\\', '\\'), ('\x08', 'b'), ('\x0c', 'f'), ('\n', 'n'), ('\r', 'r'), ('\t', 't')]

def fourHexDigits (code : Nat) : List Char :=
  let digits := Nat.toDigits 16 code
  Decimal.zeros (4 - digits.length) ++ digits

/-- A character of a string; quotes, backslashes and control characters are escaped. -/
def writtenChar (c : Char) : List Char :=
  match shortEscapes.lookup c with
  | some letter => ['\\', letter]
  | none => if c.toNat < 0x20 then '\\' :: 'u' :: fourHexDigits c.toNat else [c]

def writtenString (text : String) : String :=
  String.ofList ('"' :: text.toList.flatMap writtenChar ++ ['"'])

/-- The most decimal places that are written out; a number with more has an exponent. -/
def greatestPlaces : Nat := 30

def writtenDigits (digits : Nat) (exponent : Int) : List Char :=
  if -(greatestPlaces : Int) ≤ exponent ∧ exponent ≤ 0 then Decimal.positional digits exponent
  else Nat.toDigits 10 digits ++ 'e' :: (toString exponent).toList

def writtenNumber (negative : Bool) (digits : Nat) (exponent : Int) : String :=
  String.ofList (Decimal.signed negative (writtenDigits digits exponent))

mutual

def written : Json → String
  | .null => "null"
  | .bool value => if value then "true" else "false"
  | .number negative digits exponent => writtenNumber negative digits exponent
  | .string text => writtenString text
  | .array items => "[" ++ String.intercalate "," (writtenItems items) ++ "]"
  | .object members => "\x7b" ++ String.intercalate "," (writtenMembers members) ++ "\x7d"

def writtenItems : List Json → List String
  | [] => []
  | item :: rest => written item :: writtenItems rest

def writtenMembers : List (String × Json) → List String
  | [] => []
  | (name, value) :: rest =>
    (writtenString name ++ ":" ++ written value) :: writtenMembers rest

end

def ofInt (value : Int) : Json := .number (value < 0) value.natAbs 0

def ofNat (value : Nat) : Json := .number false value 0

/-- The shortest digits that read back, with a point or an exponent in any case. -/
def ofMagnitude (negative : Bool) (significand : Nat) (exponent : Int) : Json :=
  if significand = 0 then .number negative 0 (-1)
  else
    let (digits, power) := Decimal.shortest significand exponent
    if 0 ≤ power ∧ power ≤ 20 then .number negative (digits * Decimal.tenTo (power.toNat + 1)) (-1)
    else .number negative digits power

/-- A double; one that is not finite has no number in JSON and is null. -/
def ofFloat (value : Float) : Json :=
  match Decimal.Binary.ofFloat value with
  | .finite negative significand exponent => ofMagnitude negative significand exponent
  | .infinite _ => .null
  | .undefined => .null

def orNull {β : Type} (toJson : β → Json) : Option β → Json
  | some value => toJson value
  | none => .null

def ifPresent {β : Type} (name : String) (toJson : β → Json) : Option β → List (String × Json)
  | some value => [(name, toJson value)]
  | none => []

end Rubato.Json
