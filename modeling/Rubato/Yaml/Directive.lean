import Rubato.Decimal.Numeral
import Rubato.Yaml.Scalar

namespace Rubato.Yaml

/-! Directives: lines before a document that begin with a percent sign. One gives the
version of the format, the others give meanings to the handles of tags. -/

inductive Directive
  | version (major minor : Nat)
  | tag (handle : String)
  deriving DecidableEq, Repr

namespace Directive

def isWordCharacter (c : Char) : Bool := c.isAlphanum || c == '-' || c == '_'

def longestNumber : Nat := 9

def number? (text : List Char) : Option (Nat × List Char) :=
  let (digits, rest) := Decimal.splitDigits text
  if digits.isEmpty || longestNumber < digits.length then none
  else some (Decimal.digitsValue digits, rest)

def version? (text : List Char) : Option (Directive × List Char) := do
  let (major, afterMajor) ← number? text
  match afterMajor with
  | '.' :: rest =>
    let (minor, after) ← number? rest
    some (.version major minor, after)
  | _ => none

/-- A handle: an exclamation mark, alone or with a word and another one behind it. -/
def handle? (text : List Char) : Option (String × List Char) :=
  match text with
  | '!' :: rest =>
    let word := rest.takeWhile isWordCharacter
    match rest.drop word.length with
    | '!' :: after => some (String.ofList ('!' :: word ++ ['!']), after)
    | after => if word.isEmpty then some ("!", after) else none
  | _ => none

def isAddressCharacter (c : Char) : Bool :=
  isWordCharacter c || ";/?:@&=+$.!~*'(),[]".toList.contains c

def trailingBytes? (first : Nat) : Option Nat :=
  if first < 0x80 then some 0
  else if first < 0xC0 then none
  else if first < 0xE0 then some 1
  else if first < 0xF0 then some 2
  else if first < 0xF8 then some 3
  else none

/-- What follows the characters of an address. A percent sign and two hexadecimal
digits stand for a byte, of which some may be missing to a character. -/
def afterAddress? (missing : Nat) : List Char → Option (List Char)
  | '%' :: high :: low :: rest => do
    let byte := 16 * (← hexValue? high) + (← hexValue? low)
    match missing with
    | 0 => afterAddress? (← trailingBytes? byte) rest
    | missing + 1 =>
      if 0x80 ≤ byte ∧ byte < 0xC0 then afterAddress? missing rest else none
  | text =>
    match missing, text with
    | 0, c :: rest =>
      if isAddressCharacter c then afterAddress? 0 rest
      else if c = '%' then none
      else some (c :: rest)
    | 0, [] => some []
    | _, _ => none

def tag? (text : List Char) : Option (Directive × List Char) := do
  let (handle, afterHandle) ← handle? text
  let address := afterHandle.dropWhile isBlank
  let after ← afterAddress? 0 address
  if address.length < afterHandle.length ∧ after.length < address.length ∧
      startsBlank after then
    some (.tag handle, after)
  else none

/-- The directive of a line, behind its percent sign. Only a comment may follow it. -/
def ofLine? (line : List Char) : Option Directive := do
  let name := line.takeWhile isWordCharacter
  let rest := line.drop name.length
  if !startsBlank rest then none
  let (directive, after) ←
    if name == "YAML".toList then version? (rest.dropWhile isBlank)
    else if name == "TAG".toList then tag? (rest.dropWhile isBlank)
    else none
  match after.dropWhile isBlank with
  | [] => some directive
  | '#' :: _ => some directive
  | _ => none

end Directive

def versions : List Directive := [.version 1 1, .version 1 2]

/-- Whether directives may stand before a document: at most one version, which is a
known one, and each handle once. -/
def areDirectives (directives : List Directive) : Bool :=
  let (tags, found) := directives.partition fun directive =>
    match directive with
    | .tag _ => true
    | .version _ _ => false
  decide tags.Nodup && decide (found.length ≤ 1) && found.all versions.contains

end Rubato.Yaml
