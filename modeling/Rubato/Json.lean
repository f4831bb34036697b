import Rubato.Decimal.Numeral

namespace Rubato

/-! Values of the JSON format and their reading. The grammar is strict: no leading
zeros, no comments, no commas at the end, no control characters in strings, one value
with white space around it. Members of an object keep their order and may repeat. A
number keeps its sign and decimal digits. -/

inductive Json
  | null
  | bool (value : Bool)
  | number (negative : Bool) (digits : Nat) (exponent : Int)
  | string (value : String)
  | array (items : List Json)
  | object (members : List (String × Json))

namespace Json

def isSpace (c : Char) : Bool :=
  c == ' ' || c == '\t' || c == '\n' || c == '\r'

def skipSpace (text : List Char) : List Char :=
  text.dropWhile isSpace

def wholeDigits? (text : List Char) : Option (List Char × List Char) :=
  let (digits, rest) := Decimal.splitDigits text
  match digits with
  | [] => none
  | ['0'] => some (digits, rest)
  | '0' :: _ => none
  | _ => some (digits, rest)

def someDigits? (text : List Char) : Option (List Char × List Char) :=
  let (digits, rest) := Decimal.splitDigits text
  if digits.isEmpty then none else some (digits, rest)

def fraction? (text : List Char) : Option (List Char × List Char) :=
  match text with
  | '.' :: rest => someDigits? rest
  | _ => some ([], text)

def exponentPart? (text : List Char) : Option (Int × List Char) :=
  match text with
  | c :: rest =>
    if c = 'e' ∨ c = 'E' then do
      let (negative, unsigned) := Decimal.splitSign rest
      let (digits, after) ← someDigits? unsigned
      let value : Int := Decimal.digitsValue digits
      some (if negative then -value else value, after)
    else some (0, text)
  | [] => some (0, [])

def number? (text : List Char) : Option (Json × List Char) := do
  let (negative, unsigned) :=
    match text with
    | '-' :: rest => (true, rest)
    | _ => (false, text)
  let (whole, afterWhole) ← wholeDigits? unsigned
  let (fraction, afterFraction) ← fraction? afterWhole
  let (exponent, rest) ← exponentPart? afterFraction
  some (.number negative (Decimal.digitsValue (whole ++ fraction))
    (exponent - fraction.length), rest)

def hexValue? (c : Char) : Option Nat :=
  if '0' ≤ c ∧ c ≤ '9' then some (c.toNat - '0'.toNat)
  else if 'a' ≤ c ∧ c ≤ 'f' then some (c.toNat - 'a'.toNat + 10)
  else if 'A' ≤ c ∧ c ≤ 'F' then some (c.toNat - 'A'.toNat + 10)
  else none

def fourHex? : List Char → Option (Nat × List Char)
  | a :: b :: c :: d :: rest => do
    let digits ← [a, b, c, d].mapM hexValue?
    some (digits.foldl (fun value digit => 16 * value + digit) 0, rest)
  | _ => none

def isHighSurrogate (unit : Nat) : Bool := 0xD800 ≤ unit && unit < 0xDC00

def isLowSurrogate (unit : Nat) : Bool := 0xDC00 ≤ unit && unit < 0xE000

def joinSurrogates (high low : Nat) : Nat :=
  0x10000 + (high - 0xD800) * 0x400 + (low - 0xDC00)

def unicodeEscape? (text : List Char) : Option (Char × List Char) := do
  let (unit, rest) ← fourHex? text
  if isHighSurrogate unit then
    match rest with
    | '\\' :: 'u' :: more =>
      let (low, after) ← fourHex? more
      if isLowSurrogate low then some (Char.ofNat (joinSurrogates unit low), after) else none
    | _ => none
  else if isLowSurrogate unit then none
  else some (Char.ofNat unit, rest)

def simpleEscapes : List (Char × Char) := [
  ('"', '"'), ('\\', '\\'), ('/', '/'), ('b', '\x08'), ('f', '\x0c'), ('n', '\n'),
  ('r', '\r'), ('t', '\t')]

def escape? (text : List Char) : Option (Char × List Char) :=
  match text with
  | 'u' :: rest => unicodeEscape? rest
  | c :: rest => (simpleEscapes.lookup c).map (·, rest)
  | [] => none

/-- The rest of a string behind its opening quote; `passed` holds what has been read
of it, last character first, and the number bounds the characters to read. -/
def stringFrom? : Nat → (passed : List Char) → List Char → Option (String × List Char)
  | 0, _, _ => none
  | _, _, [] => none
  | bound + 1, passed, c :: rest =>
    if c = '"' then some (String.ofList passed.reverse, rest)
    else if c = '\\' then do
      let (meant, after) ← escape? rest
      stringFrom? bound (meant :: passed) after
    else if c.toNat < 0x20 then none
    else stringFrom? bound (c :: passed) rest

def string? (bound : Nat) (text : List Char) : Option (String × List Char) :=
  match text with
  | '"' :: rest => stringFrom? bound [] rest
  | _ => none

def literal? (name : List Char) (value : Json) (text : List Char) :
    Option (Json × List Char) :=
  if name.isPrefixOf text then some (value, text.drop name.length) else none

/-! Values. The first argument bounds the steps of the reading, down into a value or
on to the next item; a value and an item may take one step each at every character. -/

mutual

def value? : Nat → List Char → Option (Json × List Char)
  | 0, _ => none
  | depth + 1, text =>
    match text with
    | '{' :: rest =>
      match skipSpace rest with
      | '}' :: after => some (.object [], after)
      | first => (members? depth [] first).map fun (members, after) => (.object members, after)
    | '[' :: rest =>
      match skipSpace rest with
      | ']' :: after => some (.array [], after)
      | first => (items? depth [] first).map fun (items, after) => (.array items, after)
    | '"' :: _ => (string? depth text).map fun (value, after) => (.string value, after)
    | 'n' :: _ => literal? "null".toList .null text
    | 't' :: _ => literal? "true".toList (.bool true) text
    | 'f' :: _ => literal? "false".toList (.bool false) text
    | _ => number? text

def items? : Nat → List Json → List Char → Option (List Json × List Char)
  | 0, _, _ => none
  | depth + 1, earlier, text => do
    let (item, after) ← value? depth text
    match skipSpace after with
    | ',' :: rest => items? depth (item :: earlier) (skipSpace rest)
    | ']' :: rest => some ((item :: earlier).reverse, rest)
    | _ => none

def members? : Nat → List (String × Json) → List Char →
    Option (List (String × Json) × List Char)
  | 0, _, _ => none
  | depth + 1, earlier, text => do
    let (name, afterName) ← string? depth text
    match skipSpace afterName with
    | ':' :: afterColon =>
      let (value, after) ← value? depth (skipSpace afterColon)
      match skipSpace after with
      | ',' :: rest => members? depth ((name, value) :: earlier) (skipSpace rest)
      | '}' :: rest => some (((name, value) :: earlier).reverse, rest)
      | _ => none
    | _ => none

end

def ofText? (text : String) : Option Json :=
  match value? (2 * (text.length + 1)) (skipSpace text.toList) with
  | some (value, rest) => if (skipSpace rest).isEmpty then some value else none
  | none => none

def member? (json : Json) (name : String) : Option Json :=
  match json with
  | .object members => members.lookup name
  | _ => none

end Json

end Rubato
