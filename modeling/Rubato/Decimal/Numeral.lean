namespace Rubato.Decimal

/-! Number texts. A numeral has an optional sign and is either one of the words
`inf`, `infinity` and `nan` in any case, or digits with an optional point, at least
one digit on either side of it, and an optional exponent. A whole number has an
optional sign and digits, and must fit its range. Digits are ASCII. -/

inductive Numeral
  | decimal (negative : Bool) (digits : Nat) (exponent : Int)
  | infinite (negative : Bool)
  | undefined
  deriving DecidableEq, Repr

def digitValue? (c : Char) : Option Nat :=
  if '0' ≤ c ∧ c ≤ '9' then some (c.toNat - '0'.toNat) else none

def isDigit (c : Char) : Bool :=
  (digitValue? c).isSome

def valueFrom (start : Nat) (digits : List Char) : Nat :=
  digits.foldl (fun value c => 10 * value + (digitValue? c).getD 0) start

def digitsValue (digits : List Char) : Nat :=
  valueFrom 0 digits

def digitsValue? (digits : List Char) : Option Nat :=
  if !digits.isEmpty && digits.all isDigit then some (digitsValue digits) else none

def splitDigits (text : List Char) : List Char × List Char :=
  (text.takeWhile isDigit, text.dropWhile isDigit)

/-- A leading sign, negative when it is a minus, and what stands after it. -/
def splitSign : List Char → Bool × List Char
  | '-' :: rest => (true, rest)
  | '+' :: rest => (false, rest)
  | text => (false, text)

/-- The exponent at the end of a numeral: nothing, or `e` and a whole number. -/
def exponent? : List Char → Option Int
  | [] => some 0
  | c :: rest =>
    if c = 'e' ∨ c = 'E' then
      let (negative, digits) := splitSign rest
      (digitsValue? digits).map fun value => if negative then -(value : Int) else value
    else none

def decimal? (negative : Bool) (text : List Char) : Option Numeral :=
  let (whole, afterWhole) := splitDigits text
  let (fraction, rest) :=
    match afterWhole with
    | '.' :: afterPoint => splitDigits afterPoint
    | _ => ([], afterWhole)
  if whole.isEmpty && fraction.isEmpty then none
  else
    (exponent? rest).map fun exponent =>
      .decimal negative (digitsValue (whole ++ fraction)) (exponent - fraction.length)

def numeral? (text : List Char) : Option Numeral :=
  let (negative, body) := splitSign text
  let word := String.ofList (body.map Char.toLower)
  if word = "inf" ∨ word = "infinity" then some (.infinite negative)
  else if word = "nan" then some .undefined
  else decimal? negative body

def dropPlus : List Char → List Char
  | '+' :: rest => rest
  | text => text

def natural? (limit : Nat) (text : List Char) : Option Nat :=
  (digitsValue? (dropPlus text)).filter (· ≤ limit)

def integer? (least greatest : Int) (text : List Char) : Option Int :=
  let (negative, digits) := splitSign text
  ((digitsValue? digits).map fun value => if negative then -(value : Int) else value).filter
    fun value => least ≤ value && value ≤ greatest

theorem natural?_le {limit value : Nat} {text : List Char}
    (h : natural? limit text = some value) : value ≤ limit := by
  simpa using (Option.filter_eq_some_iff.mp h).2

theorem integer?_mem {least greatest value : Int} {text : List Char}
    (h : integer? least greatest text = some value) :
    least ≤ value ∧ value ≤ greatest := by
  simpa using (Option.filter_eq_some_iff.mp h).2

end Rubato.Decimal
