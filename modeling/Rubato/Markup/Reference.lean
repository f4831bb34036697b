import Rubato.Markup.Bytes
import Rubato.Markup.Fault

namespace Rubato.Markup

/-! References in text and attribute values: the five predefined names and
characters by number. Entities that a document declares for itself are not known. -/

def predefined : List (List Char × Char) := [
  ("lt".toList, '<'), ("gt".toList, '>'), ("amp".toList, '&'), ("apos".toList, '\''),
  ("quot".toList, '"')]

def decimalDigit? (c : Char) : Option Nat :=
  if '0' ≤ c ∧ c ≤ '9' then some (c.toNat - '0'.toNat) else none

def hexadecimalDigit? (c : Char) : Option Nat :=
  if '0' ≤ c ∧ c ≤ '9' then some (c.toNat - '0'.toNat)
  else if 'a' ≤ c ∧ c ≤ 'f' then some (c.toNat - 'a'.toNat + 10)
  else if 'A' ≤ c ∧ c ≤ 'F' then some (c.toNat - 'A'.toNat + 10)
  else none

def numberFrom (base : Nat) (digit? : Char → Option Nat) :
    Nat → List Char → Except Char Nat
  | value, [] => .ok value
  | value, c :: rest =>
    match digit? c with
    | some digit => numberFrom base digit? (value * base + digit) rest
    | none => .error (leadingByte c)

def codePoint (digits : List Char) : Except ReferenceFault Nat :=
  match digits with
  | 'x' :: hexadecimal =>
    if 6 < bytes hexadecimal then .error .longHexadecimal
    else (numberFrom 16 hexadecimalDigit? 0 hexadecimal).mapError .notHexadecimal
  | decimal =>
    if 7 < bytes decimal then .error .longDecimal
    else (numberFrom 10 decimalDigit? 0 decimal).mapError .notDecimal

/-- The character meant by the name between `&` and `;`, which stand at the places
`start` and `stop`. -/
def referenced (start stop : Nat) (name : List Char) : Except ReferenceFault Char :=
  match name with
  | '#' :: digits => do
    let code ← codePoint digits
    if code = 0 then .error (.null start stop)
    else if code.isValidChar then .ok (Char.ofNat code)
    else .error (.notScalar code)
  | name =>
    match predefined.lookup name with
    | some c => .ok c
    | none => .error (.unknown (start + 1) stop (String.ofList name))

/-- The name of a reference and what follows its `;`, if no `&` comes before that. -/
def referenceName? (text : List Char) : Option (List Char × List Char) :=
  match cut (fun c => c == '&' || c == ';') text with
  | (name, ';' :: rest) => some (name, rest)
  | _ => none

theorem length_referenceName? {text name rest : List Char}
    (h : referenceName? text = some (name, rest)) : rest.length < text.length := by
  unfold referenceName? at h
  split at h
  · next first after hcut =>
      simp only [Option.some.injEq, Prod.mk.injEq] at h
      obtain ⟨rfl, rfl⟩ := h
      have hlength := length_cut_le (fun c => c == '&' || c == ';') text
      rw [hcut] at hlength
      simp only [List.length_cons] at hlength
      omega
  · cases h

def resolveFrom (length place : Nat) (text : List Char) :
    Except ReferenceFault (List Char) :=
  match text with
  | [] => .ok []
  | c :: rest =>
    if c = '&' then
      match h : referenceName? rest with
      | none => .error (.unterminated place length)
      | some (name, after) =>
        have := length_referenceName? h
        do
          let stop := place + 1 + bytes name
          let meant ← referenced place stop name
          let others ← resolveFrom length (stop + 1) after
          .ok (meant :: others)
    else do
      let others ← resolveFrom length (place + c.utf8Size) rest
      .ok (c :: others)
termination_by text.length
decreasing_by
  · simp only [List.length_cons]
    omega
  · simp

def resolve (text : List Char) : Except ReferenceFault (List Char) :=
  resolveFrom (bytes text) 0 text

end Rubato.Markup
