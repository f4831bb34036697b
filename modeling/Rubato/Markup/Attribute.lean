import Rubato.Markup.Reference

namespace Rubato.Markup

/-! Attributes of a tag. A name runs to the next `=` or white space after its first
character, whatever that is; the value stands in quotes, and no space is needed
before the next attribute. Values are not trimmed, and their references are
resolved before the next attribute is looked at. -/

structure Attribute where
  name : String
  value : String
  deriving DecidableEq, Repr

def localName (name : List Char) : List Char :=
  match cut (· == ':') name with
  | (_, _ :: rest) => rest
  | (whole, []) => whole

/-- An attribute as written: its full name and its place, and its value unresolved. -/
structure RawAttribute where
  name : List Char
  place : Nat
  value : List Char

def isQuote (c : Char) : Bool := c == '"' || c == '\''

/-- The quoted value at the start of a text, after white space, and what follows it.
`length` is the length of the tag. -/
def quotedValue (length : Nat) (text : List Char) :
    Except AttributeFault (List Char × List Char) :=
  match text.dropWhile isSpace with
  | [] => .error (.missingValue length)
  | quote :: body =>
    if isQuote quote then
      match cut (· == quote) body with
      | (value, _ :: rest) => .ok (value, rest)
      | (_, []) => .error (.unclosedQuote length quote)
    else .error (.unquoted (length - bytes (quote :: body)))

/-- The first attribute of a text that starts with its name. The names before it
are given with their places. -/
def rawAttribute (length : Nat) (earlier : List (List Char × Nat)) (first : Char)
    (text : List Char) : Except AttributeFault (RawAttribute × List Char) :=
  let place := length - bytes (first :: text)
  let (others, afterName) := cut (fun c => c == '=' || isSpace c) text
  let name := first :: others
  match afterName.dropWhile isSpace with
  | '=' :: afterEquals =>
    match earlier.lookup name with
    | some previous => .error (.duplicated place previous)
    | none =>
      match quotedValue length afterEquals with
      | .ok (value, rest) => .ok (⟨name, place, value⟩, rest)
      | .error fault => .error fault
  | rest => .error (.missingEquals (length - bytes rest))

theorem length_quotedValue {length : Nat} {text value rest : List Char}
    (h : quotedValue length text = .ok (value, rest)) : rest.length ≤ text.length := by
  unfold quotedValue at h
  have hspace : (text.dropWhile isSpace).length ≤ text.length :=
    (List.dropWhile_suffix _).length_le
  split at h
  · cases h
  · next quote body hbody =>
      rw [hbody] at hspace
      split at h
      · split at h
        · next first last hcut =>
            cases h
            have hlength := length_cut_le (· == quote) body
            rw [hcut] at hlength
            simp only [List.length_cons] at hlength hspace
            omega
        · cases h
      · cases h

theorem length_rawAttribute {length : Nat} {earlier : List (List Char × Nat)}
    {first : Char} {text rest : List Char} {raw : RawAttribute}
    (h : rawAttribute length earlier first text = .ok (raw, rest)) :
    rest.length ≤ text.length := by
  unfold rawAttribute at h
  have hname : (cut (fun c => c == '=' || isSpace c) text).2.length ≤ text.length :=
    length_cut_le _ text
  have hspace : ((cut (fun c => c == '=' || isSpace c) text).2.dropWhile isSpace).length ≤
      (cut (fun c => c == '=' || isSpace c) text).2.length :=
    (List.dropWhile_suffix _).length_le
  dsimp only at h
  split at h
  · next afterEquals hequals =>
      rw [hequals] at hspace
      split at h
      · cases h
      · split at h
        · next value tail hvalue =>
            cases h
            have hrest := length_quotedValue hvalue
            simp only [List.length_cons] at hspace
            omega
        · cases h
  · cases h

def resolvedAttribute (raw : RawAttribute) : Except Fault Attribute := do
  let value ← (resolve raw.value).mapError .badReference
  .ok ⟨String.ofList (localName raw.name), String.ofList value⟩

theorem length_after_rawAttribute {length : Nat} {earlier : List (List Char × Nat)}
    {text body rest : List Char} {initial : Char} {raw : RawAttribute}
    (hspace : text.dropWhile isSpace = initial :: body)
    (hraw : rawAttribute length earlier initial body = .ok (raw, rest)) :
    rest.length < text.length := by
  have hlength : (text.dropWhile isSpace).length ≤ text.length :=
    (List.dropWhile_suffix _).length_le
  have hrest := length_rawAttribute hraw
  rw [hspace, List.length_cons] at hlength
  omega

def attributesFrom (length : Nat) (earlier : List (List Char × Nat)) (text : List Char) :
    Except Fault (List Attribute) :=
  match hspace : text.dropWhile isSpace with
  | [] => .ok []
  | initial :: body =>
    match hraw : rawAttribute length earlier initial body with
    | .error fault => .error (.badAttribute fault)
    | .ok (raw, rest) =>
      have := length_after_rawAttribute hspace hraw
      do
        let first ← resolvedAttribute raw
        let others ← attributesFrom length ((raw.name, raw.place) :: earlier) rest
        .ok (first :: others)
termination_by text.length

/-- A tag, what stands between its angle brackets without the slash of an empty
element: its full name and its attributes. -/
def tagName (tag : List Char) : List Char :=
  (cut isSpace tag).1

def tagAttributes (tag : List Char) : Except Fault (List Attribute) :=
  attributesFrom (bytes tag) [] (cut isSpace tag).2

end Rubato.Markup
