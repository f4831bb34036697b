import Rubato.Json

namespace Rubato.Json

/-! Passing over values of which only the form counts. Surrogates in their strings
need no partner, and their numbers may be of any size. -/

def passEscape? (text : List Char) : Option (List Char) :=
  match text with
  | 'u' :: rest => (fourHex? rest).map (·.2)
  | c :: rest => if (simpleEscapes.lookup c).isSome then some rest else none
  | [] => none

/-- What follows a string of which the opening quote has been passed. The number
bounds the characters to pass. -/
def passStringFrom? : Nat → List Char → Option (List Char)
  | 0, _ => none
  | _, [] => none
  | bound + 1, c :: rest =>
    if c = '"' then some rest
    else if c = '\\' then (passEscape? rest).bind (passStringFrom? bound)
    else if c.toNat < 0x20 then none
    else passStringFrom? bound rest

def passString? (bound : Nat) (text : List Char) : Option (List Char) :=
  match text with
  | '"' :: rest => passStringFrom? bound rest
  | _ => none

mutual

def pass? : Nat → List Char → Option (List Char)
  | 0, _ => none
  | depth + 1, text =>
    match text with
    | '{' :: rest =>
      match skipSpace rest with
      | '}' :: after => some after
      | first => passMembers? depth first
    | '[' :: rest =>
      match skipSpace rest with
      | ']' :: after => some after
      | first => passItems? depth first
    | '"' :: _ => passString? depth text
    | _ => (value? 1 text).map (·.2)

def passItems? : Nat → List Char → Option (List Char)
  | 0, _ => none
  | depth + 1, text => do
    match skipSpace (← pass? depth text) with
    | ',' :: rest => passItems? depth (skipSpace rest)
    | ']' :: rest => some rest
    | _ => none

def passMembers? : Nat → List Char → Option (List Char)
  | 0, _ => none
  | depth + 1, text => do
    match skipSpace (← passString? depth text) with
    | ':' :: afterColon =>
      match skipSpace (← pass? depth (skipSpace afterColon)) with
      | ',' :: rest => passMembers? depth (skipSpace rest)
      | '}' :: rest => some rest
      | _ => none
    | _ => none

end

def wantedMembers? (wanted : String → Bool) : Nat → List (String × Json) → List Char →
    Option (List (String × Json) × List Char)
  | 0, _, _ => none
  | depth + 1, earlier, text => do
    let (name, afterName) ← string? depth text
    match skipSpace afterName with
    | ':' :: afterColon =>
      let (found, after) ←
        if wanted name then
          (value? depth (skipSpace afterColon)).map fun (value, after) =>
            ((name, value) :: earlier, after)
        else (pass? depth (skipSpace afterColon)).map fun after => (earlier, after)
      match skipSpace after with
      | ',' :: rest => wantedMembers? wanted depth found (skipSpace rest)
      | '}' :: rest => some (found.reverse, rest)
      | _ => none
    | _ => none

def wantedOfText? (wanted : String → Bool) (text : String) :
    Option (List (String × Json)) := do
  match skipSpace text.toList with
  | '{' :: rest =>
    let (members, after) ←
      match skipSpace rest with
      | '}' :: after => some ([], after)
      | first => wantedMembers? wanted (2 * (text.length + 1)) [] first
    if (skipSpace after).isEmpty then some members else none
  | _ => none

end Rubato.Json
